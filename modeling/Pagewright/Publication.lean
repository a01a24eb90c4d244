import Pagewright.Document.Load
import Pagewright.Generation
import Pagewright.Job
import Pagewright.Logging.Logger
import Pagewright.Stylesheet.Bundled
import Pagewright.Stylesheet.Parse
import Pagewright.Validation

/-!
# Publishing a page

A job is carried out in order: the document is loaded and checked, its files are generated, and only
then is anything written. The files are first written under other names and then moved to their own,
so that a failure to write leaves the files of an earlier run as they were. What was written under
other names is removed when something fails.
-/

namespace Pagewright

/-! ## Failures -/

/-- Why the program stops. -/
inductive Failure where
  | settings (error : SettingsError)
  | opening (path : FilePath) (error : OsError)
  | loading (path : FilePath) (error : LoadError)
  | readingStylesheet (path : FilePath) (error : OsError)
  | parsingStylesheet (path : FilePath) (error : Stylesheet.ParseError)
  /-- The document has so many errors. -/
  | rejected (path : FilePath) (errors : Nat)
  | generating (path : FilePath) (error : GenerationError)
  | creating (path : FilePath) (error : OsError)
  | writing (path : FilePath) (error : OsError)
  | replacing (path : FilePath) (error : OsError)
  /-- The directory of the file cannot be watched; its name is given in full. -/
  | watching (path directory : FilePath) (error : OsError)
  deriving Repr

namespace Failure

/-- An error of the file system that comes out of another one is told twice. -/
def twice (message reason : String) : String :=
  s!"{message}: {reason}"

/-- The error of loading with what is behind it. -/
def loadMessage : LoadError → String
  | .unreadable reason => twice (LoadError.unreadable reason).message reason
  | e => e.message

/-- The error of the settings with what is behind it. -/
def settingsMessage : SettingsError → String
  | .unreadable reason => twice (SettingsError.unreadable reason).message reason
  | e => e.message

/-- Why a directory cannot be watched. -/
def watchMessage (directory : FilePath) : OsError → String
  | .notFound => s!"No path was found. about [{Text.quoted directory}]"
  | e => twice s!"{e.message} about [{Text.quoted directory}]" e.message

/-- The wording of a failure: what was being done, and what went wrong. -/
def message : Failure → String
  | settings e => settingsMessage e
  | opening path e => s!"opening {path}: {e.message}"
  | loading path e => s!"loading {path}: {loadMessage e}"
  | readingStylesheet path e => s!"reading base stylesheet {path}: {e.message}"
  | parsingStylesheet path e => s!"parsing {path}: {e.message}"
  | rejected path errors => s!"{path} has {errors} error(s); nothing written"
  | generating path e => s!"generating {path}: {e.message}"
  | creating path e => s!"creating {path}: {e.message}"
  | writing path e => s!"writing {path}: {e.message}"
  | replacing path e => s!"replacing {path}: {e.message}"
  | watching path directory e => s!"watching {path}: {watchMessage directory e}"

end Failure

namespace Publication

open Logging

variable {m : Type → Type} [Monad m] [Host m]

/-! ## Loading and checking -/

/-- Loads a document. -/
def loadDocument (path : FilePath) : ExceptT Failure m Document := do
  match ← Host.openFile path with
  | .error e => throw (.opening path e)
  | .ok source =>
    match Document.ofStream source.bytes (source.failure.map OsError.message) with
    | .ok doc => return doc
    | .error e => throw (.loading path e)

/-- Loads the base stylesheet. -/
def loadStylesheet : Option FilePath → ExceptT Failure m Stylesheet
  | none => return .bundled
  | some path => do
    match ← Host.readText path with
    | .error e => throw (.readingStylesheet path e)
    | .ok source =>
      match Stylesheet.parse source with
      | .ok sheet => return sheet
      | .error e => throw (.parsingStylesheet path e)

/-- The diagnostics of a document whose classes must be those of a stylesheet. -/
def check (doc : Document) (base : Stylesheet) : List Diagnostic :=
  doc.diagnostics (some base.classNames)

/-- Logs diagnostics. -/
def logDiagnostics (logger : Logger) (input : FilePath) (diagnostics : List Diagnostic) : m Unit :=
  diagnostics.forM fun d =>
    let level : Level :=
      match d.finding.severity with
      | .error => .error
      | .warning => .warn
    logger.say level .publication s!"{input}: {d.text}"

/-! ## Writing -/

/-- The name a file is written under before it is moved to its own. -/
def stagingName (name : String) : String :=
  s!".{name}.tmp"

/-- A file that is written under another name first. -/
structure Staged where
  temporary : FilePath
  final : FilePath
  deriving DecidableEq, Repr

/-- The paths of a file of a directory. -/
def Staged.of (directory : FilePath) (name : String) : Staged :=
  ⟨directory.join (stagingName name), directory.join name⟩

/-- Removes files that were written and not moved. -/
def discardAll (logger : Logger) (staged : List Staged) : m Unit :=
  staged.forM fun s => do
    match ← Host.remove s.temporary with
    | .ok () => return ()
    | .error e => logger.say .debug .publication s!"removing {s.temporary}: {e.message}"

/-- Writes files under other names; `before` are those already written. If one cannot be written,
all of them are removed. -/
def stage (logger : Logger) (directory : FilePath) (before : List Staged) :
    List (String × String) → ExceptT Failure m (List Staged)
  | [] => return before
  | (name, text) :: rest => do
    let staged := Staged.of directory name
    match ← Host.write staged.temporary text with
    | .ok () => stage logger directory (before ++ [staged]) rest
    | .error e =>
      discardAll logger before
      discard (Host.remove staged.temporary)
      throw (.writing staged.final e)

/-- Moves files to their own names. If one cannot be moved, it and those after it are removed. -/
def replaceAll (logger : Logger) : List Staged → ExceptT Failure m Unit
  | [] => return ()
  | staged :: rest => do
    match ← Host.rename staged.temporary staged.final with
    | .ok () =>
      logger.say .debug .publication s!"wrote {staged.final}"
      replaceAll logger rest
    | .error e =>
      discardAll logger (staged :: rest)
      throw (.replacing staged.final e)

/-- Writes files to a directory. -/
def writeAll (logger : Logger) (directory : FilePath) (files : List (String × String)) :
    ExceptT Failure m Unit := do
  replaceAll logger (← stage logger directory [] files)

/-! ## The whole job -/

/-- The files of a job. -/
def prepare (logger : Logger) (job : Job) : ExceptT Failure m Artifacts := do
  let doc ← loadDocument job.input
  let base ← loadStylesheet job.baseCss
  let diagnostics := check doc base
  logDiagnostics logger job.input diagnostics
  if hasErrors diagnostics then
    throw (.rejected job.input (diagnostics.filter Diagnostic.isError).length)
  let (result, run) := doc.generate base.source job.pageOptions
  run.journal.forM fun note => logger.log (recordOfNote note)
  match result with
  | .error e => throw (.generating job.input e)
  | .ok artifacts =>
    run.warnings.forM fun w => logger.say .warn .publication s!"{job.input}: {w.message}"
    return artifacts

/-- Carries out a job. -/
def publish (logger : Logger) (job : Job) : ExceptT Failure m Unit := do
  let artifacts ← prepare logger job
  match ← Host.makeDirectories job.destination with
  | .error e => throw (.creating job.destination e)
  | .ok () =>
    writeAll logger job.destination
      [(job.html, artifacts.html), (job.stylesheet, artifacts.css), (job.script, artifacts.js)]
    logger.say .info .publication s!"generated {job.input} into {job.destination}"

end Publication

end Pagewright
