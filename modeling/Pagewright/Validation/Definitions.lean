import Pagewright.Diagnostic

/-!
# Checking definitions

Components and functions are found by name, and the first definition of a name counts, so a later
one is an error. So is a component that uses itself, directly or through others: its expansion would
not end.

A component comes back to itself if there is a chain of uses from its body to its own name. The
search follows uses in document order and never enters a name that is already on the chain. Each
name it enters is the name of a component, so the chain cannot grow longer than the list of
components, and that many levels of search are enough.
-/

namespace Pagewright

/-- The component an element uses. -/
def Element.used? : Element → Option String
  | .useComponent component _ => some component
  | _ => none

/-- The components that elements use, at any depth of containers, in document order. -/
def Element.uses (es : List Element) : List String :=
  (Element.subelementsOf es).filterMap Element.used?

/-- The names that stand further in front in the list, once for each repetition. -/
def repeated (names : List String) : List String :=
  (names.zipIdx.filter fun (name, i) => name ∈ names.take i).map Prod.fst

namespace Document

/-- Components and parameters defined twice. -/
def duplicateComponents (doc : Document) : List Diagnostic :=
  doc.components.zipIdx.flatMap fun (c, i) =>
    let again := c.name ∈ (doc.components.take i).map (·.name)
    let findings :=
      (if again then [Finding.duplicateComponent c.name] else []) ++
        (repeated (c.params.map (·.name))).map (Finding.duplicateParameter · c.name)
    findings.map (⟨[.component i], ·⟩)

/-- Functions defined twice. -/
def duplicateFunctions (doc : Document) : List Diagnostic :=
  doc.functions.zipIdx.flatMap fun (f, i) =>
    if f.name ∈ (doc.functions.take i).map (·.name) then
      [⟨[.function i], .duplicateFunction f.name⟩]
    else []

/-- Searches for a chain of uses that leads to a target, entering at most so many components one
inside the other. The chain so far ends with the component whose uses are given. -/
def chainTo (doc : Document) (target : String) :
    (levels : Nat) → (chain : List String) → (uses : List String) → Option (List String)
  | 0, _, _ => none
  | levels + 1, chain, uses =>
    uses.findSome? fun name =>
      if name = target then some (chain ++ [name])
      else if name ∈ chain then none
      else
        match doc.component? name with
        | some next => chainTo doc target levels (chain ++ [name]) (Element.uses next.body)
        | none => none

/-- The chain on which a component comes back to itself, both ends included. -/
def chainBack? (doc : Document) (component : Component) : Option (List String) :=
  doc.chainTo component.name doc.components.length [component.name] (Element.uses component.body)

/-- Components that use themselves. -/
def selfUses (doc : Document) : List Diagnostic :=
  doc.components.zipIdx.flatMap fun (c, i) =>
    match doc.chainBack? c with
    | some chain => [⟨[.component i], .selfInstantiation c.name chain⟩]
    | none => []

end Document

end Pagewright
