import Pagewright.Host

/-!
# File trees

A file system as a value: a tree of directories with files at its leaves. A path is followed from
directory to directory, so every piece of it but the last must lead to a directory that exists. The
operations on files are functions from a tree to a tree, or to the error that a real system gives.

Every file of a tree has a text, and nothing in it leads elsewhere. Links, and files whose bytes are
not text, are left out, so what is said about trees does not say what happens where a path meets
one.
-/

namespace Pagewright

/-- A file with its text, or a directory. -/
inductive FileTree where
  | file (text : String)
  | directory (entries : List (String × FileTree))
  deriving Repr, Inhabited

namespace FileTree

/-- The names from the root to a node. -/
abbrev Address := List String

/-- The longest name of a file, in bytes. -/
def longestName : Nat := 255

/-- Paths must be shorter than this, in bytes. -/
def pathLimit : Nat := 4096

/-- The node at an address. -/
def get? : FileTree → Address → Option FileTree
  | tree, [] => some tree
  | file _, _ :: _ => none
  | directory entries, name :: rest =>
    match entries.lookup name with
    | some tree => tree.get? rest
    | none => none

/-- Changes what stands under a name of a directory: replaces, adds or removes it. -/
def setEntry (entries : List (String × FileTree)) (name : String) :
    Option FileTree → List (String × FileTree)
  | some tree =>
    if (entries.lookup name).isSome then
      entries.map fun (n, t) => if n = name then (n, tree) else (n, t)
    else entries ++ [(name, tree)]
  | none => entries.filter (·.1 ≠ name)

/-- The tree with another node at an address, or with none there. Only what stands in an existing
directory can be changed. -/
def set (node : Option FileTree) : FileTree → Address → FileTree
  | tree, [] => node.getD tree
  | file text, _ :: _ => file text
  | directory entries, [name] => directory (setEntry entries name node)
  | directory entries, name :: rest =>
    match entries.lookup name with
    | some tree => directory (setEntry entries name (some (tree.set node rest)))
    | none => directory entries

/-! ## Following paths -/

/-- The node is a directory; the error says what it is instead. -/
def asDirectory (tree : FileTree) (address : Address) : Except OsError Unit :=
  match tree.get? address with
  | some (directory _) => .ok ()
  | some (file _) => .error .notDirectory
  | none => .error .notFound

/-- One step from a directory. -/
def step (tree : FileTree) (address : Address) (piece : String) : Except OsError Address := do
  tree.asDirectory address
  if piece = "." then return address
  else if piece = ".." then return address.dropLast
  else if piece.utf8ByteSize > longestName then throw .nameTooLong
  else return address ++ [piece]

/-- Follows the pieces of a path. The last piece need not lead to anything that exists. -/
def follow (tree : FileTree) : Address → List String → Except OsError Address
  | address, [] => .ok address
  | address, piece :: rest => do
    follow tree (← tree.step address piece) rest

/-- A path taken apart to be followed. -/
structure Route where
  start : Address
  /-- All pieces but the last. -/
  before : List String
  /-- The last piece; a path that is nothing but slashes has none. -/
  last : Option String
  /-- A slash at the end says that a directory is meant. -/
  endsInSlash : Bool
  deriving Repr

/-- Takes a path apart, as seen from a directory. -/
def route (current : Address) (path : FilePath) : Except OsError Route :=
  if path.toList.any (· = '\x00') then .error .nulInPath
  else if path.isEmpty then .error .notFound
  else if path.utf8ByteSize ≥ pathLimit then .error .nameTooLong
  else
    let pieces := (path.pieces.filter (!·.isEmpty)).map String.ofList
    .ok
      { start := if path.isAbsolute then [] else current
        before := pieces.dropLast
        last := pieces.getLast?
        endsInSlash := path.toList.getLast? = some '/' }

/-- The address of the last directory on a route. -/
def Route.parent (tree : FileTree) (r : Route) : Except OsError Address := do
  let address ← tree.follow r.start r.before
  tree.asDirectory address
  return address

/-- The node a path leads to. -/
def find (tree : FileTree) (current : Address) (path : FilePath) : Except OsError FileTree := do
  let r ← route current path
  let address ← tree.follow r.start (r.before ++ r.last.toList)
  match tree.get? address with
  | some (file text) => if r.endsInSlash then throw .notDirectory else return file text
  | some node => return node
  | none => throw .notFound

/-- The piece is a name and not dots. -/
def isName (piece : String) : Bool :=
  piece ≠ "." && piece ≠ ".."

/-! ## Operations -/

/-- Makes a directory. -/
def makeDirectory (tree : FileTree) (current : Address) (path : FilePath) :
    Except OsError FileTree := do
  let r ← route current path
  let parent ← r.parent tree
  match r.last.filter isName with
  | none => throw .alreadyExists
  | some name =>
    let address ← tree.step parent name
    if (tree.get? address).isSome then throw .alreadyExists
    return tree.set (some (directory [])) address

/-- Writes a file. -/
def write (tree : FileTree) (current : Address) (path : FilePath) (text : String) :
    Except OsError FileTree := do
  let r ← route current path
  let parent ← r.parent tree
  match r.last.filter fun piece => isName piece && !r.endsInSlash with
  | none => throw .isDirectory
  | some name =>
    let address ← tree.step parent name
    match tree.get? address with
    | some (directory _) => throw .isDirectory
    | _ => return tree.set (some (file text)) address

/-- What stands at the target keeps a node from taking its place. -/
def obstacle? : (moved target : FileTree) → Option OsError
  | file _, directory _ => some .isDirectory
  | directory _, file _ => some .notDirectory
  | directory _, directory (_ :: _) => some .notEmpty
  | _, _ => none

/-- Moves a node to another name. -/
def rename (tree : FileTree) (current : Address) (source target : FilePath) :
    Except OsError FileTree := do
  let s ← route current source
  let t ← route current target
  let sourceParent ← s.parent tree
  let targetParent ← t.parent tree
  match s.last.filter isName, t.last.filter isName with
  | some sourceName, some targetName =>
    let sourceAddress ← tree.step sourceParent sourceName
    let targetAddress ← tree.step targetParent targetName
    match tree.get? sourceAddress with
    | none => throw .notFound
    | some node =>
      if sourceAddress = targetAddress then return tree
      match (tree.get? targetAddress).bind (obstacle? node) with
      | some e => throw e
      | none => return (tree.set none sourceAddress).set (some node) targetAddress
  | _, _ => throw .busy

/-- Removes a file. -/
def remove (tree : FileTree) (current : Address) (path : FilePath) : Except OsError FileTree := do
  let r ← route current path
  let parent ← r.parent tree
  match r.last.filter isName with
  | none => throw .isDirectory
  | some name =>
    let address ← tree.step parent name
    match tree.get? address with
    | some (file _) => return tree.set none address
    | some (directory _) => throw .isDirectory
    | none => throw .notFound

end FileTree

end Pagewright
