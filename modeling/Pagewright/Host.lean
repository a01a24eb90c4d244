import Pagewright.FilePath

/-!
# The host

What the program needs of the system it runs on: files, directories and the two output streams. The
program is written against these operations alone, so it can run on a real system and on one that is
a value.
-/

namespace Pagewright

/-- Why an operation on files failed. -/
inductive OsError where
  | notFound
  | busy
  | alreadyExists
  | notDirectory
  | isDirectory
  | notEmpty
  | nameTooLong
  /-- The path holds a character that no path can hold. -/
  | nulInPath
  /-- The text read is not encoded as it should be. -/
  | invalidText
  | other (reason : String)
  deriving DecidableEq, Repr

/-- The wording of an error. -/
def OsError.message : OsError → String
  | notFound => "No such file or directory (os error 2)"
  | busy => "Device or resource busy (os error 16)"
  | alreadyExists => "File exists (os error 17)"
  | notDirectory => "Not a directory (os error 20)"
  | isDirectory => "Is a directory (os error 21)"
  | notEmpty => "Directory not empty (os error 39)"
  | nameTooLong => "File name too long (os error 36)"
  | nulInPath => "file name contained an unexpected NUL byte"
  | invalidText => "stream did not contain valid UTF-8"
  | other reason => reason

/-- An open file: the bytes that can be read from it, and the error that then comes instead of its
end, if any. -/
structure Source where
  bytes : List UInt8
  failure : Option OsError
  deriving Repr

/-- The operations of a system. -/
class Host (m : Type → Type) where
  /-- Something stands at the path. -/
  isPresent : FilePath → m Bool
  /-- A directory stands at the path. -/
  isDirectory : FilePath → m Bool
  /-- Opens a file to read it bit by bit. -/
  openFile : FilePath → m (Except OsError Source)
  /-- Reads a text. -/
  readText : FilePath → m (Except OsError String)
  /-- Makes a directory inside one that exists. -/
  makeDirectory : FilePath → m (Except OsError Unit)
  /-- Makes a file with the given text, or gives an existing one that text. -/
  write : FilePath → (text : String) → m (Except OsError Unit)
  /-- Moves a file to another name; it takes the place of a file of that name. -/
  rename : (source target : FilePath) → m (Except OsError Unit)
  /-- Removes a file. -/
  remove : FilePath → m (Except OsError Unit)
  /-- Begins to watch what happens in a directory. -/
  watch : FilePath → m (Except OsError Unit)
  /-- The directory that relative paths start from. -/
  workingDirectory : m FilePath
  /-- Writes to the output. -/
  print : String → m Unit
  /-- Writes to the error output. -/
  report : String → m Unit

namespace Host

/-- A computation that may stop early has the operations of the system below it. -/
instance {ε : Type} {m : Type → Type} [Monad m] [Host m] : Host (ExceptT ε m) where
  isPresent path := ExceptT.lift (isPresent path)
  isDirectory path := ExceptT.lift (isDirectory path)
  openFile path := ExceptT.lift (openFile path)
  readText path := ExceptT.lift (readText path)
  makeDirectory path := ExceptT.lift (makeDirectory path)
  write path text := ExceptT.lift (write path text)
  rename source target := ExceptT.lift (rename source target)
  remove path := ExceptT.lift (remove path)
  watch path := ExceptT.lift (watch path)
  workingDirectory := ExceptT.lift workingDirectory
  print text := ExceptT.lift (print text)
  report text := ExceptT.lift (report text)

variable {m : Type → Type} [Monad m] [Host m]

/-- Makes the first directory of a list, where each is the parent of the one before it. A directory
whose parent is missing is tried again once the parent has been made. -/
def makeFirst : List FilePath → m (Except OsError Unit)
  | [] => return .error (.other "failed to create whole tree")
  | path :: parents => do
    if path.isEmpty then return .ok ()
    match ← makeDirectory path with
    | .ok () => return .ok ()
    | .error .notFound =>
      match ← makeFirst parents with
      | .error e => return .error e
      | .ok () => settled path (← makeDirectory path)
    | .error e => settled path (.error e)
where
  /-- A directory that is there counts as made. -/
  settled (path : FilePath) : Except OsError Unit → m (Except OsError Unit)
    | .ok () => return .ok ()
    | .error e => return if ← isDirectory path then .ok () else .error e

/-- Makes a directory and the directories it stands in, as far as they are missing. -/
def makeDirectories (path : FilePath) : m (Except OsError Unit) :=
  makeFirst path.ancestors

end Host

end Pagewright
