import Pagewright.Evaluation
import Pagewright.Stylesheet.Collector

/-!
# A generation run

Writing the markup finds out what the stylesheet must hold: the classes in use, and whether there
is a topbar or a footer. A run keeps these findings from one pass to the next, together with a
journal of what happened on the way. What a pass has found before it fails stays found.
-/

namespace Pagewright

/-- An entry of the journal of a run. -/
inductive Note where
  | warning (w : Warning)
  /-- A class was looked up for the first time and no rule was new. -/
  | classNotFound (name : String)
  /-- A page begins, with so many elements in its head and body. -/
  | markupPass (head body : Nat)
  /-- A stylesheet begins, with so many rules collected. -/
  | stylesheetPass (rules : Nat)
  /-- A script begins, with so many functions and statements. -/
  | scriptPass (functions statements : Nat)
  /-- All files of a page are done. -/
  | finished (warnings : Nat)
  deriving DecidableEq, Repr

/-- The wording of a note. -/
def Note.message : Note → String
  | warning w => w.message
  | classNotFound name => s!"class `{name}` not found in base stylesheet"
  | markupPass head body => s!"markup pass: {head} head, {body} body elements"
  | stylesheetPass rules => s!"stylesheet pass: {rules} collected class rule(s)"
  | scriptPass functions statements =>
    s!"script pass: {functions} function(s), {statements} statement(s)"
  | finished warnings => s!"generation finished with {warnings} warning(s)"

/-- The warning a note records. -/
def Note.warning? : Note → Option Warning
  | warning w => some w
  | _ => none

/-- What has been found out so far. -/
structure Run where
  collector : Collector
  journal : List Note
  /-- Writing a topbar has begun. -/
  topbar : Bool
  /-- Writing a footer has begun. -/
  footer : Bool
  /-- The markup of a body has been written to its end. -/
  markupDone : Bool
  deriving Repr

namespace Run

/-- Nothing has been written yet. -/
def fresh : Run := ⟨.empty, [], false, false, false⟩

/-- The texts of the class rules collected. -/
def rules (run : Run) : List String :=
  run.collector.rules

/-- The warnings of the run, in order. -/
def warnings (run : Run) : List Warning :=
  run.journal.filterMap Note.warning?

end Run

/-- A pass over a document in the course of a run. -/
abbrev Emission := ExceptT GenerationError (StateM Run)

namespace Emission

/-- Adds an entry to the journal. -/
def note (entry : Note) : Emission Unit :=
  modify fun run => { run with journal := run.journal ++ [entry] }

/-- Looks up a class in the base stylesheet. -/
def useClass (source : ClassSource) (name : String) : Emission Unit :=
  modify fun run =>
    { run with
      collector := run.collector.resolve source name
      journal :=
        if run.collector.misses source name then run.journal ++ [.classNotFound name]
        else run.journal }

/-- Carries out an evaluation and enters its warnings in the journal. -/
def ofEvaluation {α : Type} (evaluation : Evaluation α) : Emission α := do
  let (result, warnings) := (ExceptT.run evaluation).run []
  modify fun run => { run with journal := run.journal ++ warnings.map .warning }
  match result with
  | .ok value => return value
  | .error e => throw e

/-- The value of an expression. -/
def value (stack : Stack) (e : Expression) : Emission Value :=
  ofEvaluation (e.evaluate stack)

/-- The value of an expression as it is shown. -/
def shown (stack : Stack) (e : Expression) : Emission String :=
  return (← value stack e).display

/-- The value of an expression that may be absent. -/
def shown? (stack : Stack) : Option Expression → Emission (Option String)
  | some e => return some (← shown stack e)
  | none => return none

end Emission

end Pagewright
