import Pagewright.Logging.Record
import Pagewright.Text.Blank
import Pagewright.Text.Split

/-!
# Log filters

A filter says which records are kept. It is a list of directives with commas between them: a level
for everything, the name of a part of the program for all its records, or both joined by an equals
sign. The directive with the longest name that the target of a record begins with decides; if no
directive fits, the record is dropped. A slash and a text after the directives keep only records
that contain the text.

Directives that cannot be understood are left out with a warning.
-/

namespace Pagewright.Logging

/-- Which records a directive keeps: those up to a level, or none at all. -/
abbrev Threshold := Option Level

/-- All records. -/
def Threshold.everything : Threshold := some .trace

/-- The threshold by this name, in capitals or not. -/
def Threshold.ofName? (name : String) : Option Threshold :=
  let word := name.toLower
  if word = "off" then some none
  else ([Level.error, .warn, .info, .debug, .trace].find? (·.name.toLower = word)).map some

/-- The threshold keeps records of this level. -/
def Threshold.keeps (threshold : Threshold) (level : Level) : Bool :=
  threshold.any (level.rank ≤ ·.rank)

/-- A part of the program, or all of it, with the records that are kept. -/
structure Directive where
  name : Option String
  threshold : Threshold
  deriving DecidableEq, Repr

/-- Which records are kept. -/
structure Filter where
  directives : List Directive
  /-- The text that records must contain. -/
  containing : Option String
  deriving DecidableEq, Repr

namespace Filter

/-! ## Reading -/

/-- The directive that a piece of a filter stands for, or the part that is not understood. -/
def directiveOf (piece : List Char) : Except String Directive :=
  match Text.splitAt '=' piece with
  | [part] =>
    let word := String.ofList part
    match Threshold.ofName? word with
    | some threshold => .ok ⟨none, threshold⟩
    | none => .ok ⟨some word, .everything⟩
  | [name, level] =>
    let word := String.ofList (Text.trim level)
    if word.isEmpty then .ok ⟨some (String.ofList name), .everything⟩
    else
      match Threshold.ofName? word with
      | some threshold => .ok ⟨some (String.ofList name), threshold⟩
      | none => .error word
  | _ => .error (String.ofList piece)

/-- Adds a directive; it takes the place of an earlier one for the same name. -/
def insert (directives : List Directive) (d : Directive) : List Directive :=
  if directives.any (·.name = d.name) then
    directives.map fun e => if e.name = d.name then d else e
  else directives ++ [d]

/-- The directives of a list of pieces. -/
def directivesOf (pieces : List (List Char)) : List (Except String Directive) :=
  ((pieces.map Text.trim).filter (!·.isEmpty)).map directiveOf

/-- The warning about a part of a filter that is not understood. -/
def complaint (part : String) : String :=
  s!"warning: invalid logging spec '{part}', ignoring it\n"

/-- The filter that a text stands for, and the warnings about the text. A filter without directives
keeps errors. -/
def parse (source : String) : Filter × List String :=
  let standard : Directive := ⟨none, some .error⟩
  match Text.splitAt '/' source.toList with
  | mods :: rest =>
    if rest.length > 1 then
      (⟨[standard], none⟩,
        [s!"warning: invalid logging spec '{source}' (too many '/'s), ignoring it\n"])
    else
      let results := directivesOf (Text.splitAt ',' mods)
      let directives := (results.filterMap Except.toOption).foldl insert []
      let complaints := results.filterMap fun
        | .error part => some (complaint part)
        | .ok _ => none
      (⟨if directives.isEmpty then [standard] else directives, rest.head?.map String.ofList⟩,
        complaints)
  | [] => (⟨[standard], none⟩, [])

/-! ## Filtering -/

/-- The directive applies to a target. -/
def applies (d : Directive) (target : String) : Bool :=
  match d.name with
  | some name => name.toList.isPrefixOf target.toList
  | none => true

/-- How closely a directive describes a target that it applies to. -/
def closeness (d : Directive) : Nat :=
  (d.name.map (·.utf8ByteSize)).getD 0

/-- The closest directive for a target; of two equally close ones the later. -/
def closest? (directives : List Directive) (target : String) : Option Directive :=
  (directives.filter (applies · target)).foldl
    (fun best d =>
      match best with
      | some b => if closeness d < closeness b then best else some d
      | none => some d)
    none

/-- The text occurs in another one. -/
def occurs (text : List Char) : List Char → Bool
  | [] => text.isEmpty
  | c :: rest => text.isPrefixOf (c :: rest) || occurs text rest

/-- The record is kept. -/
def keeps (filter : Filter) (record : Record) : Bool :=
  (closest? filter.directives record.target).any (·.threshold.keeps record.level) &&
    filter.containing.all fun text => occurs text.toList record.text.toList

end Filter

/-- The filter to use: everything that helps to find a fault if the program is asked to be verbose,
else what the environment says unless that is blank, else what is configured, else the news. -/
def chooseFilter (verbose : Bool) (environment configured : Option String) : String :=
  if verbose then "debug"
  else
    match environment.filter (!Text.allBlank ·) with
    | some filter => filter
    | none => configured.getD "info"

end Pagewright.Logging
