import Pagewright.Stylesheet.Lexeme
import Pagewright.Stylesheet.Rule

/-!
# Reading a stylesheet

Between rules stand blanks and comments. A rule is a prelude and a block in braces, in which braces
may nest; a rule whose prelude starts with `@` may instead end at a semicolon. The rules are found
by one pass over the lexemes, which carries the offset of each.

A source that is no stylesheet is rejected with the place of the character to blame: the brace that
should not be there, the quote that is not matched, the start of a rule that has no block.
-/

namespace Pagewright.Stylesheet

/-! ## Errors -/

/-- What is wrong with a source. -/
inductive Fault where
  /-- A prelude that no block follows. -/
  | missingBlock
  | unexpectedClose
  | missingSelector
  | unclosedBlock
  | unterminatedString
  deriving DecidableEq, Repr

/-- The wording of a fault. -/
def Fault.message : Fault → String
  | missingBlock => "expected '\x7b' after selector"
  | unexpectedClose => "unexpected '\x7d'"
  | missingSelector => "missing selector before '\x7b'"
  | unclosedBlock => "unclosed '\x7b' block"
  | unterminatedString => "unterminated string"

/-- A fault with the place of the character to blame, lines and columns counted from one. -/
structure ParseError where
  fault : Fault
  line : Nat
  column : Nat
  deriving DecidableEq, Repr

/-- The wording of an error with its place. -/
def ParseError.message (e : ParseError) : String :=
  s!"stylesheet parse error at {e.line}:{e.column}: {e.fault.message}"

/-- The line of the character at an offset. -/
def lineAt (source : List Char) (offset : Nat) : Nat :=
  (source.take offset).count '\n' + 1

/-- The column of the character at an offset. -/
def columnAt (source : List Char) (offset : Nat) : Nat :=
  ((source.take offset).reverse.takeWhile (· ≠ '\n')).length + 1

/-! ## The pass over the lexemes -/

/-- How far the present rule has been read; texts are kept reversed. -/
inductive Progress where
  /-- No rule has begun. -/
  | between
  /-- Inside the prelude of the rule that starts at `start`. -/
  | prelude (start : Nat) (text : List Char)
  /-- Inside the block opened at `brace`, with `depth` further blocks open inside it. -/
  | block (brace : Nat) (selector : String) (depth : Nat) (text : List Char)
  deriving DecidableEq, Repr

/-- A fault with the offset of the character to blame. -/
abbrev Located := Fault × Nat

/-- The rule that ends at the semicolon: its selector goes up to there. -/
def directive (reversed : List Char) : Rule :=
  { selector := String.ofList (Text.trim (reversed.dropWhile (· = ';')).reverse)
    text := String.ofList reversed.reverse }

/-- Goes on with a prelude. -/
def inPrelude (offset start : Nat) (text : List Char) :
    Lexeme → Except Located (Progress × List Rule)
  | .plain '\x7b' =>
    let selector := Text.trim text.reverse
    if selector.isEmpty then .error (.missingSelector, offset)
    else .ok (.block offset (String.ofList selector) 0 ('\x7b' :: text), [])
  | .plain '\x7d' => .error (.unexpectedClose, offset)
  | .plain ';' =>
    if text.getLast? = some '@' then .ok (.between, [directive (';' :: text)])
    else .ok (.prelude start (';' :: text), [])
  | .unterminated _ => .error (.unterminatedString, offset)
  | lexeme => .ok (.prelude start (lexeme.text.reverse ++ text), [])

/-- Goes on with a block. -/
def inBlock (offset brace : Nat) (selector : String) (depth : Nat) (text : List Char) :
    Lexeme → Except Located (Progress × List Rule)
  | .plain '\x7b' => .ok (.block brace selector (depth + 1) ('\x7b' :: text), [])
  | .plain '\x7d' =>
    match depth with
    | 0 => .ok (.between, [⟨selector, String.ofList ('\x7d' :: text).reverse⟩])
    | inner + 1 => .ok (.block brace selector inner ('\x7d' :: text), [])
  | .unterminated _ => .error (.unterminatedString, offset)
  | lexeme => .ok (.block brace selector depth (lexeme.text.reverse ++ text), [])

/-- One lexeme at an offset: how the reading stands after it, and the rule it ended. -/
def Progress.step (offset : Nat) : Progress → Lexeme → Except Located (Progress × List Rule)
  | between, .comment _ => .ok (between, [])
  | between, .plain c =>
    if Text.isBlank c then .ok (between, []) else inPrelude offset offset [] (.plain c)
  | between, lexeme => inPrelude offset offset [] lexeme
  | prelude start text, lexeme => inPrelude offset start text lexeme
  | block brace selector depth text, lexeme => inBlock offset brace selector depth text lexeme

/-- The end of the source: every rule must have ended. -/
def Progress.finish : Progress → Except Located Unit
  | between => .ok ()
  | prelude start _ => .error (.missingBlock, start)
  | block brace _ _ _ => .error (.unclosedBlock, brace)

/-- The rules from the present state on; `found` are those before, the last one first. -/
def rulesFrom (offset : Nat) (state : Progress) (found : List Rule) :
    List Lexeme → Except Located (List Rule)
  | [] => state.finish.map fun _ => found.reverse
  | lexeme :: rest =>
    match state.step offset lexeme with
    | .ok (next, ended) => rulesFrom (offset + lexeme.text.length) next (ended ++ found) rest
    | .error e => .error e

/-- Reads a stylesheet. -/
def parse (source : String) : Except ParseError Stylesheet :=
  let chars := source.toList
  match rulesFrom 0 .between [] (lexemes chars) with
  | .ok rules => .ok ⟨rules⟩
  | .error (fault, offset) => .error ⟨fault, lineAt chars offset, columnAt chars offset⟩

end Pagewright.Stylesheet
