import Pagewright.Toml.Scalar
import Pagewright.Toml.Value

/-!
# Reading TOML

A text in TOML is read line by line: headers open tables, all other lines give a key its value.
Whether a text is well formed is all that is reported.
-/

namespace Pagewright.Toml

/-- Reads from the characters that are left, or fails. -/
abbrev Reader := StateT (List Char) Option

namespace Reader

/-- The next character, which stays where it is. -/
def peek? : Reader (Option Char) :=
  return (← get).head?

/-- Takes one character. -/
def next : Reader Char := do
  match ← get with
  | c :: rest =>
    set rest
    return c
  | [] => failure

/-- Takes the given text if it comes next. -/
def skip (text : String) : Reader Bool := do
  let cs ← get
  if text.toList.isPrefixOf cs then
    set (cs.drop text.length)
    return true
  else return false

/-- Takes the given text, which must come next. -/
def expect (text : String) : Reader Unit := do
  unless ← skip text do failure

/-- Takes the characters of a kind. -/
def takeWhile (p : Char → Bool) : Reader (List Char) := do
  let cs ← get
  let taken := cs.takeWhile p
  set (cs.drop taken.length)
  return taken

/-- The results of a step until it has none, at most so many. -/
def many {α : Type} (step : Reader (Option α)) : Nat → Reader (List α)
  | 0 => return []
  | n + 1 => do
    match ← step with
    | some a => return a :: (← many step n)
    | none => return []

/-- The results of a step that takes at least one character whenever it has a result. -/
def all {α : Type} (step : Reader (Option α)) : Reader (List α) := do
  many step ((← get).length + 1)

/-! ## Blanks and line ends -/

/-- A blank inside a line. -/
def isSpace (c : Char) : Bool :=
  c = ' ' || c = '\t'

/-- Takes blanks inside a line. -/
def spaces : Reader Unit :=
  discard (takeWhile isSpace)

/-- The character may stand in texts and comments. -/
def isPrintable (c : Char) : Bool :=
  c = '\t' || (' ' ≤ c && c ≠ '\x7f')

/-- Takes a comment if there is one. -/
def comment : Reader Unit := do
  if ← skip "#" then discard (takeWhile isPrintable)

/-- Takes the end of a line if it comes next. -/
def newline : Reader Bool := do
  if ← skip "\n" then return true else skip "\r\n"

/-- Takes what may follow on a line that is complete, and its end. -/
def endOfLine : Reader Unit := do
  spaces
  comment
  unless ← newline do
    unless (← get).isEmpty do failure

/-- Takes blanks, comments and line ends. -/
def gap : Reader Unit :=
  discard <| all do
    let before := (← get).length
    spaces
    comment
    discard newline
    return if (← get).length < before then some () else none

/-! ## Texts -/

/-- The character of so many hexadecimal digits. -/
def codePoint (digits : Nat) : Reader Char := do
  let cs := (← get).take digits
  set ((← get).drop digits)
  let code := digitsValue 16 cs
  if cs.length = digits ∧ cs.all isHexDigit ∧ code.isValidChar then return Char.ofNat code
  else failure

/-- The character that an escape stands for, after its backslash. -/
def escape : Reader Char := do
  match ← next with
  | 'b' => return '\x08'
  | 't' => return '\t'
  | 'n' => return '\n'
  | 'f' => return '\x0c'
  | 'r' => return '\r'
  | '"' => return '"'
  | '\\' => return '\\'
  | 'u' => codePoint 4
  | 'U' => codePoint 8
  | _ => failure

/-- The pieces of a text put together. -/
def joined (pieces : List (List Char)) : String :=
  String.ofList pieces.flatten

/-- A text in double quotes, after the first of them. -/
def basic : Reader String :=
  joined <$> all do
    match ← next with
    | '"' => return none
    | '\\' => return some [← escape]
    | c => if isPrintable c then return some [c] else failure

/-- A text in single quotes, after the first of them. -/
def literal : Reader String :=
  joined <$> all do
    match ← next with
    | '\'' => return none
    | c => if isPrintable c then return some [c] else failure

/-- The quotes that come next in a text closed by three of them: those that belong to it, or none
at its end. Up to two quotes may stand right before the closing ones. -/
def quotes (quote : Char) : Reader (Option (List Char)) := do
  let run := (← get).takeWhile (· = quote)
  let own := if run.length < 3 then run.length else run.length - 3
  if own > 2 then failure
  else if run.length = 3 then
    set ((← get).drop 3)
    return none
  else
    set ((← get).drop own)
    return some (run.take own)

/-- After a backslash at the end of a line: takes blanks and line ends up to the next character. -/
def continuation : Reader Unit := do
  spaces
  unless ← newline do failure
  discard <| all do
    let before := (← get).length
    spaces
    discard newline
    return if (← get).length < before then some () else none

/-- The next piece of a text of several lines. -/
def multilinePiece (quote : Char) (escapes : Bool) : Reader (Option (List Char)) := do
  if (← peek?) = some quote then quotes quote
  else if ← newline then return some ['\n']
  else
    let c ← next
    if escapes ∧ c = '\\' then
      match ← peek? with
      | some d =>
        if isSpace d ∨ d = '\n' ∨ d = '\r' then
          continuation
          return some []
        else return some [← escape]
      | none => failure
    else if isPrintable c then return some [c]
    else failure

/-- A text of several lines, after its opening quotes. A line end right after them does not
count. -/
def multiline (quote : Char) (escapes : Bool) : Reader String := do
  discard newline
  joined <$> all (multilinePiece quote escapes)

/-- A text in any kind of quotes, if one comes next. -/
def text? : Reader (Option String) := do
  if ← skip "\"\"\"" then return some (← multiline '"' true)
  else if ← skip "\"" then return some (← basic)
  else if ← skip "'''" then return some (← multiline '\'' false)
  else if ← skip "'" then return some (← literal)
  else return none

/-! ## Keys -/

/-- The character may stand in a key without quotes. -/
def isKeyChar (c : Char) : Bool :=
  c.isAlphanum || c = '-' || c = '_'

/-- One part of a key. -/
def keyPart : Reader String := do
  if ← skip "\"" then basic
  else if ← skip "'" then literal
  else
    match ← takeWhile isKeyChar with
    | [] => failure
    | name => return String.ofList name

/-- A key, its parts divided by dots: the path to a table and the key inside it. -/
def key : Reader (List String × String) := do
  spaces
  let first ← keyPart
  spaces
  let others ← all do
    if ← skip "." then
      spaces
      let part ← keyPart
      spaces
      return some part
    else return none
  let parts := first :: others
  return (parts.dropLast, others.getLastD first)

/-! ## Values -/

/-- The character ends a number, a truth value or a time. -/
def endsScalar (c : Char) : Bool :=
  isSpace c || c = '\n' || c = '\r' || c = ',' || c = ']' || c = '\x7d' || c = '#'

/-- A number, a truth value or a time. A blank may stand between a date and a time of day. -/
def scalar : Reader Value := do
  let word ← takeWhile (!endsScalar ·)
  let rest ← get
  let isDate := afterDate? word = some []
  let timeFollows := rest.head? = some ' ' && (rest.drop 1).head?.any Char.isDigit
  if isDate ∧ timeFollows then
    discard next
    let time ← takeWhile (!endsScalar ·)
    if isScalar (word ++ ' ' :: time) then return .scalar else failure
  else if isScalar word then return .scalar
  else failure

/-- How deep lists and tables in braces may stand inside each other. -/
def levelLimit : Nat := 79

/-- The items of a list, after its bracket; the last one may have a comma behind it. -/
def items (value : Reader Value) : Reader (List Value) := do
  let found ← all do
    gap
    if (← peek?) = some ']' then return none
    else
      let item ← value
      gap
      if ← skip "," then return some item
      else if (← peek?) = some ']' then return some item
      else failure
  expect "]"
  return found

/-- A key and its value, inside a table in braces. -/
def inlineEntry (value : Reader Value) (entries : Entries) : Reader Entries := do
  let (path, name) ← key
  expect "="
  spaces
  let v ← value
  spaces
  match entries.add path name v with
  | some more => return more
  | none => failure

/-- More keys with their values, each after a comma. -/
def inlineEntries (value : Reader Value) : Nat → Entries → Reader Entries
  | 0, entries => return entries
  | n + 1, entries => do
    if ← skip "," then inlineEntries value n (← inlineEntry value entries)
    else return entries

/-- A table in braces, after the first of them. -/
def inlineTable (value : Reader Value) : Reader Value := do
  spaces
  if ← skip "\x7d" then return .inline []
  else
    let entries ← inlineEntries value (← get).length (← inlineEntry value [])
    expect "\x7d"
    return .inline entries

/-- A value that may open so many levels. -/
def value : Nat → Reader Value
  | 0 => do
    match ← text? with
    | some s => return .text s
    | none => scalar
  | n + 1 => do
    match ← text? with
    | some s => return .text s
    | none =>
      if ← skip "[" then return .array (← items (value n))
      else if ← skip "\x7b" then inlineTable (value n)
      else scalar

/-! ## Documents -/

/-- What has been read: the outermost table, and the path of the table whose header came last. -/
structure Progress where
  root : Entries
  current : List String

/-- Goes on if there is a result. -/
def lift {α : Type} : Option α → Reader α
  | some a => return a
  | none => failure

/-- Reads a line that holds a header, after its first bracket. -/
def header (state : Progress) : Reader Progress := do
  if ← skip "[" then
    let (path, name) ← key
    expect "]]"
    endOfLine
    return ⟨← lift (state.root.openNext path name), path ++ [name]⟩
  else
    let (path, name) ← key
    expect "]"
    endOfLine
    return ⟨← lift (state.root.openTable path name), path ++ [name]⟩

/-- Reads a line that gives a key its value. -/
def assignment (state : Progress) : Reader Progress := do
  let (path, name) ← key
  expect "="
  spaces
  let v ← value levelLimit
  endOfLine
  let root ← lift <|
    Entries.alter false (fun _ entries => entries.add path name v) state.current none state.root
  return { state with root }

/-- Reads one line. -/
def line (state : Progress) : Reader Progress := do
  spaces
  match ← peek? with
  | none => return state
  | some '#' | some '\n' | some '\r' =>
    endOfLine
    return state
  | some '[' =>
    discard next
    header state
  | some _ => assignment state

/-- Reads lines to the end. -/
def lines : Nat → Progress → Reader Progress
  | 0, state => return state
  | n + 1, state => do
    if (← get).isEmpty then return state
    else lines n (← line state)

end Reader

/-- The outermost table of a text. A byte order mark in front does not count. -/
def parse (source : String) : Option Entries :=
  let cs := source.toList
  let cs := if cs.head? = some '\ufeff' then cs.tail else cs
  ((Reader.lines cs.length ⟨[], []⟩).run cs).map (·.1.root)

end Pagewright.Toml
