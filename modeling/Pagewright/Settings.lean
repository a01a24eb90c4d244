import Pagewright.FilePath
import Pagewright.Toml.Read

/-!
# Settings

A settings file names the three files of a page, the directory they go to, the base stylesheet and
how much is logged. Everything in it is optional, and anything it does not know is an error.

The parts may be given as tables, or as lists that hold the fields in order; a list may stop early,
and what goes beyond the fields is not looked at.
-/

namespace Pagewright

/-- The names of the files of a page. -/
structure OutputSettings where
  html : String := "index.html"
  stylesheet : String := "stylesheet.css"
  script : String := "script.js"
  /-- The directory the files go to. -/
  destination : Option FilePath := none
  deriving DecidableEq, Repr

/-- All settings. -/
structure Settings where
  output : OutputSettings := {}
  /-- The stylesheet whose classes a document may use. -/
  baseCss : Option FilePath := none
  /-- How much is logged. -/
  level : String := "info"
  deriving DecidableEq, Repr

/-- Why there are no settings. -/
inductive SettingsError where
  /-- The file that was asked for does not exist. -/
  | notFound (path : FilePath)
  /-- The text is not TOML, or holds what settings do not have. -/
  | malformed
  /-- A field has a value it must not have. -/
  | invalid (field reason : String)
  | unreadable (reason : String)
  deriving DecidableEq, Repr

/-- The wording of an error. -/
def SettingsError.message : SettingsError → String
  | notFound path => s!"config file not found: {path}"
  | malformed => "TOML parse error"
  | invalid field reason => s!"validation error: {field}: {reason}"
  | unreadable reason => s!"I/O error: {reason}"

namespace Settings

/-- The file that is looked for beside a document. -/
def fileName : String := "simpleui.toml"

/-! ## Fields -/

/-- The fields of a record, by name: from a table, none unknown, or from a list in order. -/
def fieldsOf (names : List String) : Toml.Value → Option (List (String × Toml.Value))
  | .table _ entries | .inline entries =>
    if entries.all (·.1 ∈ names) then some entries else none
  | .array items => some (names.zip items)
  | .tables newest earlier => some (names.zip ((newest :: earlier).reverse.map .inline))
  | .text _ | .scalar => none

/-- A field that is a text, or what it is without one. -/
def textField {α : Type} (fields : List (String × Toml.Value)) (name : String) (wrap : String → α)
    (default : α) : Option α :=
  match fields.lookup name with
  | some (.text s) => some (wrap s)
  | some _ => none
  | none => some default

/-- The names of the files, as they are set. -/
def outputOf (value : Toml.Value) : Option OutputSettings := do
  let fields ← fieldsOf ["html", "stylesheet", "script", "destination"] value
  let standard : OutputSettings := {}
  return {
    html := ← textField fields "html" id standard.html
    stylesheet := ← textField fields "stylesheet" id standard.stylesheet
    script := ← textField fields "script" id standard.script
    destination := ← textField fields "destination" some none }

/-- How much is logged, as it is set. -/
def levelOf (value : Toml.Value) : Option String := do
  textField (← fieldsOf ["level"] value) "level" id ({} : Settings).level

/-- The settings a table holds. -/
def ofEntries (entries : Toml.Entries) : Option Settings := do
  let fields ← fieldsOf ["output", "base_css", "log"] (.inline entries)
  let standard : Settings := {}
  return {
    output := ← ((fields.lookup "output").map outputOf).getD (some standard.output)
    baseCss := ← textField fields "base_css" some none
    level := ← ((fields.lookup "log").map levelOf).getD (some standard.level) }

/-! ## Validity -/

/-- The amounts of logging there are. -/
def levels : List String := ["off", "error", "warn", "info", "debug", "trace"]

/-- What is wrong with the name of a file. -/
def nameError? (field name : String) : Option SettingsError :=
  if name.isEmpty then some (.invalid field "must not be empty")
  else if name.toList.any fun c => c = '/' || c = '\\' then
    some (.invalid field "must be a file name, not a path")
  else none

/-- What is wrong with the amount of logging. -/
def levelError? (level : String) : Option SettingsError :=
  if level ∈ levels then none
  else
    let known := ", ".intercalate levels
    some (.invalid "log.level" s!"expected one of {known}, got `{level}`")

/-- The first thing that is wrong with the settings. -/
def error? (settings : Settings) : Option SettingsError :=
  nameError? "output.html" settings.output.html <|>
    nameError? "output.stylesheet" settings.output.stylesheet <|>
    nameError? "output.script" settings.output.script <|>
    levelError? settings.level

/-- The settings a text holds, paths as they are written. -/
def parse (source : String) : Except SettingsError Settings :=
  match (Toml.parse source).bind ofEntries with
  | none => .error .malformed
  | some settings =>
    match settings.error? with
    | some e => .error e
    | none => .ok settings

/-- The settings with paths seen from the directory of their file. -/
def rebase (settings : Settings) (directory : FilePath) : Settings :=
  { settings with
    output := { settings.output with
      destination := settings.output.destination.map directory.join }
    baseCss := settings.baseCss.map directory.join }

end Settings

end Pagewright
