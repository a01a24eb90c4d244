import Pagewright.Schema.Read

/-!
# Loading a document

A document is loaded from a JSON text in memory or from a stream of bytes.
-/

namespace Pagewright

/-- Why a document could not be loaded. -/
inductive LoadError where
  /-- The text is no JSON, or no document. The place is missing only for a problem inside a value
  that is itself the whole text. -/
  | json (problem : Json.Problem) (place : Option Json.Place)
  /-- The source of the text failed. -/
  | unreadable (reason : String)
  deriving Repr

namespace LoadError

/-- The place of the error, with zeros for none. -/
def place : LoadError → Json.Place
  | json _ (some place) => place
  | json _ none | unreadable _ => ⟨0, 0⟩

/-- The problem and its place, in a sentence. -/
def placedMessage (problem : Json.Problem) : Option Json.Place → String
  | some place => s!"{problem.message} at line {place.line} column {place.column}"
  | none => problem.message

/-- The wording of an error. -/
def message : LoadError → String
  | json problem place =>
    let p := (json problem place).place
    s!"document JSON error at {p.line}:{p.column}: {placedMessage problem place}"
  | unreadable reason => s!"I/O error reading document: {reason}"

/-- The error behind a failed reading. -/
def ofFault : Json.Fault → LoadError
  | ⟨.unreadable reason, _⟩ => unreadable reason
  | ⟨problem, place⟩ => json problem place

end LoadError

/-- Reads a value of a shape from the whole of a text. -/
def Schema.load (s : Schema.Shape) (origin : Json.Origin) (bytes : List UInt8) :
    Except LoadError s.Value :=
  match (Schema.read Json.levelLimit s).run origin bytes with
  | .ok value => .ok value
  | .error fault => .error (.ofFault fault)

namespace Document

/-- The document a text stands for. -/
def ofText (text : String) : Except LoadError Document :=
  Schema.load (.record .document) .memory text.toUTF8.toList

/-- The document a stream of bytes stands for. The stream ends after its last byte, or fails. -/
def ofStream (bytes : List UInt8) (failure : Option String) : Except LoadError Document :=
  Schema.load (.record .document) (.stream failure) bytes

end Document

end Pagewright
