import Pagewright.Host.FileTree

/-!
# A host that is a value

A world holds a file tree, the working directory and what has been written to the two outputs. Any
operation on files may be made to fail: a plan says whether it does, and may go by the number of the
operation, by what is asked for, and by the tree it is asked of. A read or a write that fails may
have gone through in part.
-/

namespace Pagewright

/-- An operation on files that can fail. -/
inductive Operation where
  | openFile (path : FilePath)
  | readText (path : FilePath)
  | makeDirectory (path : FilePath)
  | write (path : FilePath)
  | rename (source target : FilePath)
  | remove (path : FilePath)
  | watch (path : FilePath)
  deriving DecidableEq, Repr

/-- The failure of one operation. -/
structure Breakdown where
  error : OsError
  /-- How much of the text had passed; nothing is done at all without it. -/
  passed : Option Nat
  deriving Repr

/-- A system as a value. -/
structure World where
  tree : FileTree
  /-- The working directory. -/
  current : FileTree.Address
  /-- The working directory as it is named. -/
  currentName : FilePath
  output : String
  errorOutput : String
  /-- How many operations that can fail have been carried out. -/
  operations : Nat
  /-- Which operations fail: the number of the operation, the operation, and the tree it meets. -/
  plan : Nat → Operation → FileTree → Option Breakdown

namespace World

/-- A world in which nothing fails. -/
def new (tree : FileTree) (current : FileTree.Address) (currentName : FilePath) : World :=
  ⟨tree, current, currentName, "", "", 0, fun _ _ _ => none⟩

/-- Counts an operation and tells whether it fails. -/
def begin (operation : Operation) : StateM World (Option Breakdown) := do
  let world ← get
  set { world with operations := world.operations + 1 }
  return world.plan world.operations operation world.tree

/-- An operation that changes the tree, or leaves it as it is. -/
def change (operation : Operation)
    (effect : FileTree → FileTree.Address → Except OsError FileTree) :
    StateM World (Except OsError Unit) := do
  match ← begin operation with
  | some breakdown => return .error breakdown.error
  | none =>
    let world ← get
    match effect world.tree world.current with
    | .ok tree =>
      set { world with tree }
      return .ok ()
    | .error e => return .error e

/-- Opens a file. A directory can be opened too, but not read. -/
def openFile (path : FilePath) : StateM World (Except OsError Source) := do
  let breakdown ← begin (.openFile path)
  let world ← get
  match breakdown, world.tree.find world.current path with
  | some ⟨e, none⟩, _ => return .error e
  | _, .error e => return .error e
  | some ⟨e, some n⟩, .ok (.file text) => return .ok ⟨text.toUTF8.toList.take n, some e⟩
  | none, .ok (.file text) => return .ok ⟨text.toUTF8.toList, none⟩
  | _, .ok (.directory _) => return .ok ⟨[], some .isDirectory⟩

/-- Reads a text. -/
def readText (path : FilePath) : StateM World (Except OsError String) := do
  let breakdown ← begin (.readText path)
  let world ← get
  match breakdown, world.tree.find world.current path with
  | some ⟨e, _⟩, _ => return .error e
  | none, .ok (.file text) => return .ok text
  | none, .ok (.directory _) => return .error .isDirectory
  | none, .error e => return .error e

/-- Writes a file. -/
def write (path : FilePath) (text : String) : StateM World (Except OsError Unit) := do
  match ← begin (.write path) with
  | none => writeNow text
  | some ⟨e, none⟩ => return .error e
  | some ⟨e, some n⟩ =>
    match ← writeNow (String.ofList (text.toList.take n)) with
    | .ok () => return .error e
    | .error first => return .error first
where
  /-- Gives the file a text. -/
  writeNow (text : String) : StateM World (Except OsError Unit) := do
    let world ← get
    match world.tree.write world.current path text with
    | .ok tree =>
      set { world with tree }
      return .ok ()
    | .error e => return .error e

instance : Host (StateM World) where
  isPresent path := return ((← get).tree.find (← get).current path).isOk
  isDirectory path := return ((← get).tree.find (← get).current path) matches .ok (.directory _)
  openFile
  readText
  makeDirectory path :=
    change (.makeDirectory path) fun tree current => tree.makeDirectory current path
  write
  rename source target :=
    change (.rename source target) fun tree current => tree.rename current source target
  remove path := change (.remove path) fun tree current => tree.remove current path
  watch path := change (.watch path) fun tree current => (tree.find current path).map fun _ => tree
  workingDirectory := return (← get).currentName
  print text := modify fun world => { world with output := world.output ++ text }
  report text := modify fun world => { world with errorOutput := world.errorOutput ++ text }

end World

end Pagewright
