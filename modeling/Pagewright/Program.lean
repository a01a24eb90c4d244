import Pagewright.Arguments
import Pagewright.Publication
import Pagewright.Watch

/-!
# The program

The settings are read first, since they say how much is logged; a failure to read them is reported
once logging has been set up without them. Then the command is carried out. A failure ends the
program with its wording in the log.

A command that keeps watching does not end by itself. The program then hands over to a session,
which is told of every burst of events.
-/

namespace Pagewright

open Logging

/-- How a program ends. -/
inductive ExitCode where
  | success
  | failure
  /-- The command line makes no sense. -/
  | usage
  deriving DecidableEq, Repr

/-- The number the system is given. -/
def ExitCode.number : ExitCode → UInt8
  | success => 0
  | failure => 1
  | usage => 2

/-- A job that is carried out again whenever its document changes. -/
structure Session where
  logger : Logger
  job : Job
  deriving Repr

/-- What the program comes to. -/
inductive Outcome where
  | ended (code : ExitCode)
  /-- The document is being watched. -/
  | watching (session : Session)
  deriving Repr

namespace Program

variable {m : Type → Type} [Monad m] [Host m]

/-- The name of the program with its version. -/
def versionText : String := "simpleui 0.1.0\n"

/-- How the program is used. -/
def helpText : String :=
  "\n".intercalate
    ["Generate HTML, CSS and JavaScript from SimpleUi documents",
     "",
     "Usage: simpleui [OPTIONS] <COMMAND>",
     "",
     "Commands:",
     "  generate  Generate index.html, stylesheet.css and script.js",
     "  check     Validate a document and print its diagnostics",
     "  classes   List the classes the base stylesheet defines",
     "  help      Print this message or the help of the given subcommand(s)",
     "",
     "Options:",
     "  -v, --verbose          Enable debug logging",
     "      --config <CONFIG>  Config file (defaults to simpleui.toml next to the input)",
     "  -h, --help             Print help",
     "  -V, --version          Print version",
     ""]

/-! ## Settings and logging -/

/-- Where a settings file is looked for. -/
def settingsDirectory : Command → FilePath
  | .generate file .. | .check file _ => file.directory
  | .classes _ => "."

/-- The settings of a file. -/
def readSettings (path : FilePath) : m (Except SettingsError Settings) := do
  match ← Host.readText path with
  | .error e => return .error (.unreadable e.message)
  | .ok source => return (Settings.parse source).map (·.rebase (path.parent?.getD "."))

/-- The settings of a run: those of the file that is named, which must exist, or of a file in the
directory, if there is one. -/
def loadSettings (named : Option FilePath) (directory : FilePath) :
    m (Except SettingsError Settings) := do
  match named with
  | some path =>
    if ← Host.isPresent path then readSettings path else return .error (.notFound path)
  | none =>
    let path := directory.join Settings.fileName
    if ← Host.isPresent path then readSettings path else return .ok {}

/-- Sets up logging. -/
def startLogging (verbose : Bool) (environment configured : Option String) : m Logger := do
  let source := chooseFilter verbose environment configured
  let (filter, complaints) := Filter.parse source
  complaints.forM Host.report
  let logger : Logger := ⟨filter, verbose⟩
  logger.say .debug .setup s!"logging initialized with filter {Text.quoted source}"
  return logger

/-! ## Commands -/

/-- Shows the diagnostics of a document; it fails if there are errors. -/
def check (logger : Logger) (file : FilePath) (baseCss : Option FilePath) :
    ExceptT Failure m ExitCode := do
  let doc ← Publication.loadDocument file
  let base ← Publication.loadStylesheet baseCss
  let diagnostics := Publication.check doc base
  diagnostics.forM fun d => Host.print s!"{file}: {d.text}\n"
  if hasErrors diagnostics then return .failure
  logger.say .info .program s!"{file}: no errors"
  return .success

/-- Shows the classes of the base stylesheet. -/
def classes (baseCss : Option FilePath) : ExceptT Failure m ExitCode := do
  let base ← Publication.loadStylesheet baseCss
  base.completions.forM fun c => Host.print s!"{c.label}\t{c.detail}\n"
  return .success

/-- Logs a failure. -/
def logFailure (logger : Logger) (failure : Failure) : m Unit :=
  logger.say .error .program failure.message

/-- Carries out a job, and only logs a failure. -/
def publishOrLog (logger : Logger) (job : Job) : m Unit := do
  match ← (Publication.publish logger job).run with
  | .ok () => return ()
  | .error failure => logFailure logger failure

/-- Begins to watch the document of a job, after a first generation. -/
def startWatching (logger : Logger) (job : Job) : ExceptT Failure m Outcome := do
  let directory := job.input.directory
  match ← Host.watch directory with
  | .error e =>
    throw (.watching job.input (FilePath.join (← Host.workingDirectory) directory) e)
  | .ok () =>
    publishOrLog logger job
    logger.say .info .watching s!"watching {job.input} for changes"
    return .watching ⟨logger, job⟩

/-- Carries out a command. -/
def execute (logger : Logger) (settings : Settings) : Command → ExceptT Failure m Outcome
  | .generate file destination watch baseCss => do
    let job := Job.new file destination baseCss settings
    if watch then startWatching logger job
    else
      Publication.publish logger job
      return .ended .success
  | .check file baseCss => return .ended (← check logger file (baseCss <|> settings.baseCss))
  | .classes baseCss => return .ended (← classes (baseCss <|> settings.baseCss))

/-- Carries out an invocation; `environment` is the filter that the environment asks for. -/
def run (environment : Option String) (invocation : Invocation) : m Outcome := do
  let settings ← loadSettings invocation.config (settingsDirectory invocation.command)
  let configured := settings.toOption.map (·.level)
  let logger ← startLogging invocation.verbose environment configured
  let result ←
    match settings with
    | .ok settings => (execute logger settings invocation.command).run
    | .error e => pure (.error (.settings e))
  match result with
  | .ok outcome => return outcome
  | .error failure =>
    logFailure logger failure
    return .ended .failure

/-- Runs the program on a command line. -/
def start (environment : Option String) (words : List String) : m Outcome := do
  match Arguments.parse words with
  | .run invocation => run environment invocation
  | .help =>
    Host.print helpText
    return .ended .success
  | .version =>
    Host.print versionText
    return .ended .success
  | .invalid =>
    Host.report "error: the arguments are not understood\n\nFor more information, try '--help'.\n"
    return .ended .usage

end Program

namespace Session

variable {m : Type → Type} [Monad m] [Host m]

/-- Answers what has happened to the document. -/
def handle (session : Session) : Watch.Event → m Unit
  | .changed => do
    session.logger.say .info .watching s!"{session.job.input} changed, regenerating"
    Program.publishOrLog session.logger session.job
  | .removed =>
    session.logger.say .warn .watching
      s!"{session.job.input} was removed; waiting for it to reappear"
  | .error message => session.logger.say .warn .watching s!"watch error: {message}"

/-- Answers a burst of notifications. -/
def handleBurst (session : Session) (burst : List Watch.Notification) : m Unit :=
  match Watch.outcome? (burst.filterMap (Watch.classify session.job.input.fileName?)) with
  | some event => session.handle event
  | none => return ()

/-- Ends the watching when there is nothing more to hear. -/
def stop (session : Session) : m ExitCode := do
  session.logger.say .warn .watching s!"stopped watching {session.job.input}"
  return .failure

end Session

end Pagewright
