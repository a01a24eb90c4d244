import Pagewright.Generation.Run
import Pagewright.Host
import Pagewright.Logging.Filter

/-!
# Logging

Records that pass the filter are written to the error output.
-/

namespace Pagewright.Logging

/-- What becomes of records. -/
structure Logger where
  filter : Filter
  /-- Lines show which part of the program a record comes from. -/
  showTargets : Bool
  deriving Repr

/-- The parts of the program that log. -/
inductive Part where
  | program
  | setup
  | publication
  | watching
  | evaluation
  | classes
  | passes
  | script
  | generation
  deriving DecidableEq, Repr

/-- The name of a part in the log. -/
def Part.target : Part → String
  | program => "simpleui"
  | setup => "simpleui::logging::init"
  | publication => "simpleui::generate"
  | watching => "simpleui::watch"
  | evaluation => "simpleui_codegen::eval"
  | classes => "simpleui_codegen::css::collector"
  | passes => "simpleui_codegen::run"
  | script => "simpleui_codegen::script"
  | generation => "simpleui_codegen"

/-- The record of a note that was taken during a generation run. -/
def recordOfNote (note : Note) : Record :=
  let (level, part) : Level × Part :=
    match note with
    | .warning _ => (.warn, .evaluation)
    | .classNotFound _ => (.debug, .classes)
    | .markupPass _ _ | .stylesheetPass _ => (.debug, .passes)
    | .scriptPass _ _ => (.debug, .script)
    | .finished _ => (.debug, .generation)
  ⟨level, part.target, note.message⟩

namespace Logger

variable {m : Type → Type} [Monad m] [Host m]

/-- Logs a record. -/
def log (logger : Logger) (record : Record) : m Unit :=
  if logger.filter.keeps record then Host.report (record.line logger.showTargets)
  else return ()

/-- Logs a text on behalf of a part of the program. -/
def say (logger : Logger) (level : Level) (part : Part) (text : String) : m Unit :=
  logger.log ⟨level, part.target, text⟩

end Logger

end Pagewright.Logging
