import Pagewright.Validation.Markup

/-!
# Checking the script

A statement may use the constants defined before it, and inside a function also the parameters and
all constants outside functions. A textbox that is read must exist somewhere in the body or in a
component. What a name stands for is not known before the script runs, so only literals tell the
types of operands.
-/

namespace Pagewright

/-- The name of a textbox. -/
def Element.textboxName? : Element → Option String
  | .textbox attrs _ _ _ => attrs.name
  | _ => none

/-- The names of the textboxes of a document. -/
def Document.textboxes (doc : Document) : List String :=
  (Element.subelementsOf (doc.body ++ doc.components.flatMap (·.body))).filterMap
    Element.textboxName?

/-- The name is not known to the script. -/
def Expression.scriptFinding? (textboxes known : List String) : Expression → Option Finding
  | symbol name => if name ∈ known then none else some (.undefinedSymbol name)
  | textbox name => if name ∈ textboxes then none else some (.unknownTextbox name)
  | _ => none

/-- The findings about a statement. -/
def Statement.findings (textboxes known : List String) (s : Statement) : List Finding :=
  s.value.parts.filterMap (Expression.scriptFinding? textboxes known) ++
    s.value.operatorFindings []

/-- The diagnostics of statements that follow each other; each may use the constants before it. -/
def Statement.inOrder (textboxes : List String) (path : Nat → Path) :
    (index : Nat) → (known : List String) → List Statement → List Diagnostic
  | _, _, [] => []
  | index, known, s :: rest =>
    Path.found (path index) (s.findings textboxes known) ++
      inOrder textboxes path (index + 1) (known ++ s.defined?.toList) rest

/-- The diagnostics of the script: the statements first, then the functions. -/
def Document.scriptDiagnostics (doc : Document) : List Diagnostic :=
  let globals := doc.statements.filterMap Statement.defined?
  Statement.inOrder doc.textboxes (fun j => [.statement j]) 0 [] doc.statements ++
    doc.functions.zipIdx.flatMap fun (f, i) =>
      Statement.inOrder doc.textboxes (fun j => [.function i, .body j]) 0 (globals ++ f.params)
        f.body

end Pagewright
