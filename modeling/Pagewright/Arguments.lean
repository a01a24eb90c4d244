import Pagewright.FilePath

/-!
# The command line

The program is given a command with its options. Options with two dashes have a name, those with one
dash a letter, and letters may be written together; an option that takes a value has it behind an
equals sign, for a letter also right behind it, or as the next word. Two dashes alone end the
options. Two options belong to every command and may stand before the command or after it; given in
both places, the one after the command counts.

Words are read from left to right, and the first one that decides the matter does so: a request for
help or for the version is granted even if what follows makes no sense, but not if what comes before
makes none.
-/

namespace Pagewright

/-- What the program is to do. -/
inductive Command where
  | generate (file : FilePath) (destination : Option FilePath) (watch : Bool)
      (baseCss : Option FilePath)
  | check (file : FilePath) (baseCss : Option FilePath)
  | classes (baseCss : Option FilePath)
  deriving DecidableEq, Repr

/-- A command with the options that belong to every command. -/
structure Invocation where
  verbose : Bool
  /-- The settings file. -/
  config : Option FilePath
  command : Command
  deriving DecidableEq, Repr

/-- What a command line asks for. -/
inductive Arguments where
  | run (invocation : Invocation)
  | help
  | version
  /-- The command line makes no sense. -/
  | invalid
  deriving DecidableEq, Repr

namespace Arguments

/-! ## What can be given -/

/-- The options there are. -/
inductive Switch where
  | verbose
  | config
  | destination
  | watch
  | baseCss
  | help
  | version
  deriving DecidableEq, Repr

namespace Switch

/-- The name of an option, after two dashes. -/
def name : Switch → String
  | verbose => "verbose"
  | config => "config"
  | destination => "destination"
  | watch => "watch"
  | baseCss => "base-css"
  | help => "help"
  | version => "version"

/-- The letter of an option, after one dash. -/
def letter? : Switch → Option Char
  | verbose => some 'v'
  | destination => some 'd'
  | watch => some 'w'
  | help => some 'h'
  | version => some 'V'
  | config | baseCss => none

/-- The option has a value, which is a path. -/
def takesValue : Switch → Bool
  | config | destination | baseCss => true
  | verbose | watch | help | version => false

end Switch

/-- What may be given before a command or after it. -/
structure Level where
  options : List Switch
  /-- How many files may be named. -/
  files : Nat
  /-- The commands that may follow. -/
  commands : List String
  deriving Repr

/-- The commands of the program. -/
def commandNames : List String := ["generate", "check", "classes", "help"]

/-- Before the command. -/
def Level.outer : Level := ⟨[.verbose, .config, .help, .version], 0, commandNames⟩

/-- After the command of this name. -/
def Level.ofCommand (name : String) : Level :=
  match name with
  | "generate" => ⟨[.verbose, .config, .destination, .watch, .baseCss, .help], 1, []⟩
  | "check" => ⟨[.verbose, .config, .baseCss, .help], 1, []⟩
  | _ => ⟨[.verbose, .config, .baseCss, .help], 0, []⟩

/-! ## What is given -/

/-- What has been read at one level. -/
structure Given where
  flags : List Switch
  values : List (Switch × FilePath)
  files : List FilePath
  deriving Repr

namespace Given

/-- Nothing has been read. -/
def empty : Given := ⟨[], [], []⟩

/-- The option has been given. -/
def has (given : Given) (o : Switch) : Bool :=
  o ∈ given.flags || (given.values.lookup o).isSome

/-- Adds an option without a value; no option may be given twice. -/
def addFlag? (given : Given) (o : Switch) : Option Given :=
  if given.has o then none else some { given with flags := o :: given.flags }

/-- Adds an option with its value, which must not be empty. -/
def addValue? (given : Given) (o : Switch) (value : FilePath) : Option Given :=
  if given.has o ∨ value.isEmpty then none
  else some { given with values := (o, value) :: given.values }

/-- Adds a file, if one more may be named. -/
def addFile? (given : Given) (level : Level) (file : FilePath) : Option Given :=
  if given.files.length < level.files ∧ ¬ file.isEmpty then
    some { given with files := given.files ++ [file] }
  else none

end Given

/-- How the words of one level end. -/
inductive Ending where
  /-- There are no more words. -/
  | finished (given : Given)
  /-- A command follows, with words of its own. -/
  | command (given : Given) (name : String) (rest : List String)
  | help
  | version
  | invalid
  deriving Repr

/-! ## Reading words -/

/-- What becomes of an option once its own word is read. -/
inductive Reading where
  | done (given : Given)
  /-- The next word is the value. -/
  | awaits (o : Switch) (given : Given)
  | help
  | version
  | invalid
  deriving Repr

/-- Reading goes on if nothing is wrong. -/
def Reading.ofOption : Option Given → Reading
  | some given => done given
  | none => invalid

/-- An option without a value of its own. -/
def plainOption (given : Given) (o : Switch) : Reading :=
  match o with
  | .help => .help
  | .version => .version
  | o => if o.takesValue then .awaits o given else .ofOption (given.addFlag? o)

/-- A word that starts with two dashes, these left out. -/
def longOption (level : Level) (given : Given) (word : List Char) : Reading :=
  let name := word.takeWhile (· ≠ '=')
  match level.options.find? (·.name = String.ofList name) with
  | none => .invalid
  | some o =>
    match word.drop name.length with
    | [] => plainOption given o
    | _ :: value =>
      if o.takesValue then .ofOption (given.addValue? o (String.ofList value)) else .invalid

/-- A word that starts with one dash, this left out: letters, and perhaps a value. -/
def letters (level : Level) (given : Given) : List Char → Reading
  | [] => .done given
  | c :: rest =>
    match level.options.find? (·.letter? = some c) with
    | none => .invalid
    | some o =>
      if o.takesValue then
        match rest with
        | [] => .awaits o given
        | '=' :: value | value => .ofOption (given.addValue? o (String.ofList value))
      else
        match plainOption given o with
        | .done given => letters level given rest
        | other => other

/-- The word starts an option. -/
def startsOption (word : String) : Bool :=
  word.toList.head? = some '-' && word ≠ "-"

/-- Words after two dashes alone: all of them are files. -/
def filesOnly (level : Level) (given : Given) : List String → Ending
  | [] => .finished given
  | word :: rest =>
    match given.addFile? level word with
    | some given => filesOnly level given rest
    | none => .invalid

/-- Reads the words of one level. If an option awaits its value, the first word is that. -/
def read (level : Level) (given : Given) (awaiting : Option Switch) : List String → Ending
  | [] => if awaiting.isSome then .invalid else .finished given
  | word :: rest =>
    if startsOption word then
      if awaiting.isSome then .invalid
      else if word = "--" then filesOnly level given rest
      else
        let reading :=
          match word.toList with
          | '-' :: '-' :: name => longOption level given name
          | cs => letters level given cs.tail
        match reading with
        | .done given => read level given none rest
        | .awaits o given => read level given (some o) rest
        | .help => .help
        | .version => .version
        | .invalid => .invalid
    else
      match awaiting with
      | some o =>
        match given.addValue? o word with
        | some given => read level given none rest
        | none => .invalid
      | none =>
        if word ∈ level.commands then .command given word rest
        else
          match given.addFile? level word with
          | some given => read level given none rest
          | none => .invalid

/-- The command of this name with what is given for it. -/
def commandOf (name : String) (given : Given) : Option Command :=
  match name, given.files with
  | "generate", [file] =>
    some (.generate file (given.values.lookup .destination) (given.has .watch)
      (given.values.lookup .baseCss))
  | "check", [file] => some (.check file (given.values.lookup .baseCss))
  | "classes", _ => some (.classes (given.values.lookup .baseCss))
  | _, _ => none

/-- Help may be asked for a command, and for nothing inside it. -/
def helpFor : List String → Arguments
  | [] => help
  | [name] => if name ∈ commandNames then help else invalid
  | _ => invalid

/-- What a command line asks for. -/
def parse (words : List String) : Arguments :=
  match read .outer .empty none words with
  | .help => help
  | .version => version
  | .invalid | .finished _ => invalid
  | .command outer name rest =>
    if name = "help" then helpFor rest
    else
      match read (.ofCommand name) .empty none rest with
      | .help => help
      | .finished inner =>
        match commandOf name inner with
        | some command =>
          run
            { verbose := outer.has .verbose || inner.has .verbose
              config := inner.values.lookup .config <|> outer.values.lookup .config
              command }
        | none => invalid
      | .version | .invalid | .command .. => invalid

end Arguments

end Pagewright
