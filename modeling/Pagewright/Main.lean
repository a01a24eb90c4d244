import Pagewright.Program

/-!
# The command line program

Runs the program on the real system. A document is watched by looking at it again and again.
-/

namespace Pagewright.Machine

/-- The error behind a failed operation. -/
def osError : IO.Error → OsError
  | .noFileOrDirectory .. => .notFound
  | .alreadyExists .. => .alreadyExists
  | .resourceBusy .. => .busy
  | .inappropriateType _ code _ =>
    if code = 20 then .notDirectory
    else if code = 21 then .isDirectory
    else .other s!"os error {code}"
  | e => .other (toString e)

/-- The result of an operation, or its error. -/
def attempt {α : Type} (action : IO α) : IO (Except OsError α) := do
  try
    return .ok (← action)
  catch e => return .error (osError e)

/-- A directory stands at the path. -/
def isDirectory (path : FilePath) : IO Bool := do
  if path.isEmpty then return false
  else ((← IO.currentDir) / path).isDir

/-- Something stands at the path. -/
def isPresent (path : FilePath) : IO Bool := do
  if path.isEmpty then return false
  else ((← IO.currentDir) / path).pathExists

/-- The bytes of a file, to be read bit by bit. -/
def openFile (path : FilePath) : IO (Except OsError Source) := do
  if ← isDirectory path then return .ok ⟨[], some .isDirectory⟩
  else return (← attempt (IO.FS.readBinFile path)).map fun bytes => ⟨bytes.toList, none⟩

/-- The text of a file. -/
def readText (path : FilePath) : IO (Except OsError String) := do
  match ← openFile path with
  | .error e => return .error e
  | .ok ⟨_, some e⟩ => return .error e
  | .ok ⟨bytes, none⟩ =>
    match String.fromUTF8? ⟨bytes.toArray⟩ with
    | some text => return .ok text
    | none => return .error .invalidText

instance : Host IO where
  isPresent
  isDirectory
  openFile
  readText
  makeDirectory path := attempt (IO.FS.createDir path)
  write path text := attempt (IO.FS.writeFile path text)
  rename source target := attempt (IO.FS.rename source target)
  remove path := attempt (IO.FS.removeFile path)
  watch path := do return if ← isPresent path then .ok () else .error .notFound
  workingDirectory := return (← IO.currentDir).toString
  print := IO.print
  report := IO.eprint

/-- When a file was changed last; nothing if there is none. -/
def lastChange (path : FilePath) : IO (Option IO.FS.SystemTime) := do
  try
    return some (← ((← IO.currentDir) / path).metadata).modified
  catch _ => return none

/-- How long to wait between two looks at a file, in milliseconds. -/
def interval : UInt32 := 100

/-- Looks at the document of a session until the program is stopped. -/
partial def keepWatching (session : Session) (before : Option IO.FS.SystemTime) : IO Unit := do
  IO.sleep interval
  let input := session.job.input
  let now ← lastChange input
  if now != before then
    let what : Watch.Happening := if now.isSome then .modified else .removed
    session.handleBurst [.happened what [input]]
  keepWatching session now

end Pagewright.Machine

/-- Runs the program. -/
def main (words : List String) : IO UInt32 := do
  match ← Pagewright.Program.start (← IO.getEnv "RUST_LOG") words with
  | .ended code => return code.number.toUInt32
  | .watching session =>
    let before ← Pagewright.Machine.lastChange session.job.input
    Pagewright.Machine.keepWatching session before
    return (← session.stop).number.toUInt32
