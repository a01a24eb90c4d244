/-!
# Log records

What the program has to say about its work goes to the log. A record has a level, the name of the
part of the program it comes from, and a text. It is written on one line; further lines of its text
are indented.
-/

namespace Pagewright.Logging

/-- How much a record matters, the most important first. -/
inductive Level where
  | error
  | warn
  | info
  | debug
  | trace
  deriving DecidableEq, Repr

/-- The name of a level. -/
def Level.name : Level → String
  | error => "ERROR"
  | warn => "WARN"
  | info => "INFO"
  | debug => "DEBUG"
  | trace => "TRACE"

/-- The place of a level in the order of levels. -/
def Level.rank : Level → Nat
  | error => 1
  | warn => 2
  | info => 3
  | debug => 4
  | trace => 5

/-- An entry of the log. -/
structure Record where
  level : Level
  /-- The part of the program the record comes from. -/
  target : String
  text : String
  deriving DecidableEq, Repr

/-- The name of a level, filled up to the length of the longest. -/
def Level.padded (level : Level) : String :=
  level.name ++ String.ofList (List.replicate (5 - level.name.length) ' ')

/-- How far lines after the first are indented. -/
def continuationIndent : List Char := [' ', ' ', ' ', ' ']

/-- The line of a record, with its target if that is asked for. -/
def Record.line (record : Record) (showTarget : Bool) : String :=
  let target := if showTarget then " " ++ record.target else ""
  let text := record.text.toList.flatMap fun c =>
    if c = '\n' then c :: continuationIndent else [c]
  s!"[{record.level.padded}{target}] " ++ String.ofList text ++ "\n"

end Pagewright.Logging
