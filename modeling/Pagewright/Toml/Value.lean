/-!
# TOML values

Settings are written in TOML. Of the values it has, settings use texts, lists and tables; numbers,
truth values and times are told apart from these and not from each other.

How a table came to be decides whether it can be extended. A table with a header of its own is open
for the lines below that header, a table made by dotted keys for further dotted keys, and a table in
braces is closed at once.
-/

namespace Pagewright.Toml

/-- How a table was made. -/
inductive Origin where
  /-- By a header of its own. -/
  | header
  /-- By a header of a table inside it. -/
  | implied
  /-- By dotted keys. -/
  | dotted
  deriving DecidableEq, Repr

/-- A value. -/
inductive Value where
  | text (s : String)
  /-- A number, a truth value or a time. -/
  | scalar
  | array (items : List Value)
  /-- A table in braces. -/
  | inline (entries : List (String × Value))
  | table (origin : Origin) (entries : List (String × Value))
  /-- Tables that share a header in double brackets, the newest first. -/
  | tables (newest : List (String × Value)) (earlier : List (List (String × Value)))
  deriving Repr, Inhabited

/-- The keys of a table with their values. -/
abbrev Entries := List (String × Value)

namespace Entries

/-- Gives a key another value. -/
def replace (entries : Entries) (key : String) (value : Value) : Entries :=
  entries.map fun (k, v) => if k = key then (k, value) else (k, v)

/-- Changes the table at the end of a path. Tables on the way that do not exist yet are made; dotted
keys do not lead into a table that has a header. The change is told how its table was made. -/
def alter (dotted : Bool) (change : Option Origin → Entries → Option Entries) :
    List String → (origin : Option Origin) → Entries → Option Entries
  | [], origin, entries => change origin entries
  | key :: path, _, entries =>
    match entries.lookup key with
    | none => do
      let made := if dotted then Origin.dotted else Origin.implied
      let inner ← alter dotted change path (some made) []
      return entries ++ [(key, .table made inner)]
    | some (.table origin inner) =>
      if dotted ∧ origin = .header then none
      else do
        let inner ← alter dotted change path (some origin) inner
        return replace entries key (.table origin inner)
    | some (.tables newest earlier) => do
      let newest ← alter dotted change path (some .header) newest
      return replace entries key (.tables newest earlier)
    | some _ => none

/-- Adds a key that must be new. Dotted keys add to tables made by dotted keys alone. -/
def add (path : List String) (key : String) (value : Value) (entries : Entries) :
    Option Entries :=
  alter true
    (fun origin inner =>
      if (¬ path.isEmpty ∧ origin ≠ some .dotted) ∨ (inner.lookup key).isSome then none
      else some (inner ++ [(key, value)]))
    path none entries

/-- Opens the table of a header. It must be new, or have been implied by a table inside it. -/
def openTable (path : List String) (key : String) (entries : Entries) : Option Entries :=
  alter false
    (fun _ inner =>
      match inner.lookup key with
      | none => some (inner ++ [(key, .table .header [])])
      | some (.table .implied own) => some (replace inner key (.table .header own))
      | some _ => none)
    path none entries

/-- Opens one more table of a header in double brackets. -/
def openNext (path : List String) (key : String) (entries : Entries) : Option Entries :=
  alter false
    (fun _ inner =>
      match inner.lookup key with
      | none => some (inner ++ [(key, .tables [] [])])
      | some (.tables newest earlier) => some (replace inner key (.tables [] (newest :: earlier)))
      | some _ => none)
    path none entries

end Entries

end Pagewright.Toml
