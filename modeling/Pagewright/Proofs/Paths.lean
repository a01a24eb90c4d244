import Pagewright.Proofs.Report

/-!
# Paths lead to elements

The check goes over a tree of elements with a path that it makes longer on the way down. So a path
is first of all a record of how the check came to an element. Here it is read in the other
direction: the steps of a path, taken one after the other, lead from a list of elements to one of
them (`Element.inside?`). The elements that the check locates are exactly those that paths lead to,
each with its own path (`Element.mem_locatedFrom_iff`).

The check meets them in document order. That order can be seen from the paths alone: a container
comes before its content, and of two ways that part the one with the smaller index comes first
(`Path.Before`).
-/

namespace Pagewright

/-! ## Document order -/

/-- The index of a step among the steps of its kind. -/
def Step.index : Step → Nat
  | head i | body i | component i | function i | statement i | style i | content i | css i
  | property i => i
  | title => 0

/-- **The path comes before the other in document order**: the other one leads further inside, or it
takes a step with a greater index where the two part. -/
def Path.Before : Path → Path → Prop :=
  List.Lex fun step step' => step.index < step'.index

namespace Path

theorem Before.asymm {path path' : Path} (h : path.Before path') : ¬ path'.Before path :=
  List.lex_asymm (fun hstep => Nat.lt_asymm hstep) h

/-- What two paths have in common does not count. -/
theorem Before.append_left {path path' : Path} (h : path.Before path') (front : Path) :
    (front ++ path).Before (front ++ path') := by
  induction front with
  | nil => exact h
  | cons step front ih => exact .cons ih

/-- A container comes before its content. -/
theorem before_append_cons (path : Path) (step : Step) (steps : Path) :
    path.Before (path ++ step :: steps) := by
  have hnil : Before [] (step :: steps) := .nil
  have h := hnil.append_left path
  rw [List.append_nil] at h
  exact h

/-- Where two paths part, the smaller index comes first. -/
theorem append_before_append (path : Path) {step step' : Step} (h : step.index < step'.index)
    (steps steps' : Path) : (path ++ step :: steps).Before (path ++ step' :: steps') := by
  have hparts : Before (step :: steps) (step' :: steps') := .rel h
  exact hparts.append_left path

end Path

/-! ## The element at the end of a path -/

namespace Element

/-- **The element that steps lead to** inside an element. All of them are steps into the content of
a container. -/
def inside? : Path → Element → Option Element
  | [], e => some e
  | .content i :: steps, e => e.children[i]?.bind (inside? steps)
  | _ :: _, _ => none

theorem inside?_eq_some_iff {steps : Path} {e x : Element} :
    e.inside? steps = some x ↔
      (steps = [] ∧ x = e) ∨
        ∃ i rest, steps = .content i :: rest ∧ e.children[i]?.bind (inside? rest) = some x := by
  constructor
  · intro h
    cases steps with
    | nil =>
      cases h
      exact .inl ⟨rfl, rfl⟩
    | cons step rest =>
      cases step with
      | content i => exact .inr ⟨i, rest, rfl, h⟩
      | _ => cases h
  · rintro (⟨rfl, rfl⟩ | ⟨i, rest, rfl, h⟩)
    · rfl
    · exact h

/-- The element itself is located first, and then its content. -/
theorem located_eq (path : Path) (e : Element) :
    e.located path = (path, e) :: locatedFrom path .content 0 e.children := by
  cases e <;> simp [located, locatedFrom, children]

/-- **The elements that are located are those that paths lead to**, each at the end of its path. -/
theorem mem_locatedFrom_iff {path place : Path} {step : Nat → Step} {k : Nat}
    {es : List Element} {x : Element} :
    (place, x) ∈ locatedFrom path step k es ↔
      ∃ i steps, place = path ++ step (k + i) :: steps ∧
        es[i]?.bind (inside? steps) = some x := by
  induction es using contentInduction generalizing path step k with
  | nil => simp [locatedFrom]
  | cons e rest ihcontent ih =>
    have hfirst : (place, x) ∈ e.located (path ++ [step k]) ↔
        ∃ steps, place = path ++ step k :: steps ∧ e.inside? steps = some x := by
      rw [located_eq, List.mem_cons, ihcontent, Prod.mk.injEq]
      constructor
      · rintro (⟨rfl, rfl⟩ | ⟨i, steps, rfl, h⟩)
        · exact ⟨[], rfl, rfl⟩
        · refine ⟨.content i :: steps, ?_, h⟩
          rw [Nat.zero_add, List.append_assoc]
          rfl
      · rintro ⟨steps, rfl, h⟩
        rcases inside?_eq_some_iff.mp h with ⟨rfl, rfl⟩ | ⟨i, steps, rfl, h⟩
        · exact .inl ⟨rfl, rfl⟩
        · refine .inr ⟨i, steps, ?_, h⟩
          rw [Nat.zero_add, List.append_assoc]
          rfl
    rw [locatedFrom, List.mem_append, hfirst, ih]
    constructor
    · rintro (⟨steps, rfl, h⟩ | ⟨i, steps, rfl, h⟩)
      · exact ⟨0, steps, rfl, h⟩
      · refine ⟨i + 1, steps, ?_, h⟩
        rw [Nat.add_assoc, Nat.add_comm 1 i]
    · rintro ⟨i, steps, rfl, h⟩
      cases i with
      | zero => exact .inl ⟨steps, rfl, h⟩
      | succ i =>
        refine .inr ⟨i, steps, ?_, h⟩
        rw [Nat.add_assoc, Nat.add_comm 1 i]

/-- **Elements are located in document order.** -/
theorem pairwise_locatedFrom {step : Nat → Step} (hstep : ∀ i, (step i).index = i) (path : Path)
    (k : Nat) (es : List Element) :
    (locatedFrom path step k es).Pairwise fun p q => p.1.Before q.1 := by
  induction es using contentInduction generalizing path step k with
  | nil => exact .nil
  | cons e rest ihcontent ih =>
    rw [locatedFrom]
    refine List.pairwise_append.mpr ⟨?_, ih hstep path (k + 1), ?_⟩
    · rw [located_eq]
      refine List.pairwise_cons.mpr ⟨?_, ihcontent (fun _ => rfl) _ 0⟩
      rintro ⟨place, x⟩ hx
      obtain ⟨i, steps, rfl, -⟩ := mem_locatedFrom_iff.mp hx
      exact Path.before_append_cons _ _ _
    · rintro ⟨place, x⟩ hx ⟨place', x'⟩ hx'
      obtain ⟨⟨steps, rfl⟩, -⟩ := mem_of_mem_located hx
      obtain ⟨i, steps', rfl, -⟩ := mem_locatedFrom_iff.mp hx'
      have hless : (step k).index < (step (k + 1 + i)).index := by
        rw [hstep, hstep]
        omega
      rw [List.append_assoc]
      exact Path.append_before_append path hless _ _

/-- The elements that are located, without their paths. -/
theorem map_snd_locatedFrom (path : Path) (step : Nat → Step) (k : Nat) (es : List Element) :
    (locatedFrom path step k es).map Prod.snd = subelementsOf es := by
  induction es using contentInduction generalizing path step k with
  | nil => rfl
  | cons e rest ihcontent ih =>
    rw [locatedFrom, located_eq, List.cons_append, List.map_cons, List.map_append, ihcontent, ih,
      subelementsOf_cons]

end Element

/-! ## The elements of a body -/

/-- **The element of the body that a path leads to.** -/
def Document.bodyElement? (doc : Document) : Path → Option Element
  | .body i :: steps => doc.body[i]?.bind (Element.inside? steps)
  | _ => none

/-- The elements of the body that the check locates are those that paths lead to. -/
theorem Document.mem_located_body_iff {doc : Document} {path : Path} {e : Element} :
    (path, e) ∈ Element.locatedFrom [] .body 0 doc.body ↔ doc.bodyElement? path = some e := by
  rw [Element.mem_locatedFrom_iff]
  constructor
  · rintro ⟨i, steps, rfl, h⟩
    rw [Nat.zero_add]
    exact h
  · intro h
    cases path with
    | nil => cases h
    | cons step steps =>
      cases step with
      | body i => exact ⟨i, steps, by rw [Nat.zero_add]; rfl, h⟩
      | _ => cases h

end Pagewright
