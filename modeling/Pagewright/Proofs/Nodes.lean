import Mathlib.Data.List.Nodup
import Pagewright.Proofs.PathTexts
import Pagewright.Proofs.Paths

/-!
# Paths lead to nodes

A path leads from a document to one of its nodes: an element, the title of a section, a style
property, a definition, a statement or a style rule (`Document.node?`). Since a path is written out
in a report, a node is also found from the text of its path (`Document.resolve?`).

The elements of a document are those of its head, its body and its components, with all that is
inside them (`Document.located`). Each of them is at the end of a path, and no two of them have the
same text for their path.
-/

namespace Pagewright

/-! ## Nodes -/

/-- **A node of a document.** -/
inductive Node where
  | element (e : Element)
  /-- The title of a section. -/
  | caption (text : Expression)
  /-- A style property of an element or of a style rule. -/
  | declaration (d : Declaration)
  | component (c : Component)
  | function (f : Function)
  | statement (s : Statement)
  | style (rule : StyleRule)

/-- The title of a section. -/
def Element.caption? : Element → Option Expression
  | sectionBlock _ caption _ => caption
  | _ => none

/-- **The node that steps lead to** inside an element. -/
def Element.node? : Path → Element → Option Node
  | [], e => some (.element e)
  | .content i :: steps, e => e.children[i]?.bind (node? steps)
  | [.title], e => e.caption?.map .caption
  | [.css i], e => e.declarations[i]?.map .declaration
  | _, _ => none

namespace Document

/-- **The node that a path leads to.** -/
def node? (doc : Document) : Path → Option Node
  | .head i :: steps => doc.head[i]?.bind (Element.node? steps)
  | .body i :: steps => doc.body[i]?.bind (Element.node? steps)
  | [.component i] => doc.components[i]?.map .component
  | .component i :: .body j :: steps =>
    doc.components[i]?.bind fun c => c.body[j]?.bind (Element.node? steps)
  | [.function i] => doc.functions[i]?.map .function
  | [.function i, .body j] => doc.functions[i]?.bind fun f => f.body[j]?.map .statement
  | [.statement i] => doc.statements[i]?.map .statement
  | [.style i] => doc.styles[i]?.map .style
  | [.style i, .property j] =>
    doc.styles[i]?.bind fun rule => rule.properties[j]?.map .declaration
  | _ => none

/-- **The node that the text of a path leads to.** -/
def resolve? (doc : Document) (text : String) : Option Node :=
  (Path.read? text).bind doc.node?

/-- The element that a path leads to. -/
def element? (doc : Document) : Path → Option Element
  | .head i :: steps => doc.head[i]?.bind (Element.inside? steps)
  | .body i :: steps => doc.body[i]?.bind (Element.inside? steps)
  | .component i :: .body j :: steps =>
    doc.components[i]?.bind fun c => c.body[j]?.bind (Element.inside? steps)
  | _ => none

/-- **All elements of a document with their paths**: those of the head, of the body and of the
components, with all that is inside them. -/
def located (doc : Document) : List (Path × Element) :=
  Element.locatedFrom [] .head 0 doc.head ++ Element.locatedFrom [] .body 0 doc.body ++
    doc.components.zipIdx.flatMap fun (c, i) => Element.locatedFrom [.component i] .body 0 c.body

end Document

/-! ## Following a path -/

/-- **What comes after the steps to an element** leads on from the element. -/
theorem Element.node?_append {steps : Path} {e x : Element} (h : e.inside? steps = some x)
    (rest : Path) : e.node? (steps ++ rest) = x.node? rest := by
  induction steps generalizing e with
  | nil =>
    cases h
    rfl
  | cons step steps ih =>
    cases step with
    | content i =>
      obtain ⟨child, hchild, hinside⟩ := Option.bind_eq_some_iff.mp h
      rw [List.cons_append, node?, hchild]
      exact ih hinside
    | _ => cases h

/-- A node of another kind is not an element. -/
theorem Node.map_ne_element {α : Type} {kind : α → Node} {e : Element}
    (h : ∀ a, kind a ≠ .element e) {part : Option α} : part.map kind ≠ some (.element e) := by
  intro heq
  obtain ⟨a, -, ha⟩ := Option.map_eq_some_iff.mp heq
  exact h a ha

/-- If steps lead to an element, all of them are steps into the content of containers. -/
theorem Element.inside?_of_node? {steps : Path} {e x : Element}
    (h : e.node? steps = some (.element x)) : e.inside? steps = some x := by
  induction steps generalizing e with
  | nil =>
    cases h
    rfl
  | cons step steps ih =>
    cases step with
    | content i =>
      obtain ⟨child, hchild, hnode⟩ := Option.bind_eq_some_iff.mp h
      rw [inside?, hchild]
      exact ih hnode
    | title =>
      cases steps with
      | nil => exact absurd h (Node.map_ne_element nofun)
      | cons next steps => cases h
    | css i =>
      cases steps with
      | nil => exact absurd h (Node.map_ne_element nofun)
      | cons next steps => cases h
    | _ => cases h

/-- What comes after the steps from a first element, if there is one, to another leads on from the
other. -/
theorem Element.bind_node?_append {first : Option Element} {steps : Path} {x : Element}
    (h : first.bind (inside? steps) = some x) (rest : Path) :
    first.bind (node? (steps ++ rest)) = x.node? rest := by
  obtain ⟨e, rfl, hinside⟩ := Option.bind_eq_some_iff.mp h
  exact node?_append hinside rest

theorem Element.bind_inside?_of_node? {first : Option Element} {steps : Path} {x : Element}
    (h : first.bind (node? steps) = some (.element x)) : first.bind (inside? steps) = some x := by
  obtain ⟨e, rfl, hnode⟩ := Option.bind_eq_some_iff.mp h
  exact inside?_of_node? hnode

namespace Document

variable {doc : Document} {path : Path} {e : Element}

/-- The three ways in which a path leads to an element. -/
theorem element?_eq_some_iff : doc.element? path = some e ↔
    (∃ i steps, path = .head i :: steps ∧ doc.head[i]?.bind (Element.inside? steps) = some e) ∨
    (∃ i steps, path = .body i :: steps ∧ doc.body[i]?.bind (Element.inside? steps) = some e) ∨
    ∃ i c j steps, doc.components[i]? = some c ∧ path = .component i :: .body j :: steps ∧
      c.body[j]?.bind (Element.inside? steps) = some e := by
  constructor
  · intro h
    unfold element? at h
    split at h
    · exact .inl ⟨_, _, rfl, h⟩
    · exact .inr (.inl ⟨_, _, rfl, h⟩)
    · obtain ⟨c, hc, h⟩ := Option.bind_eq_some_iff.mp h
      exact .inr (.inr ⟨_, c, _, _, hc, rfl, h⟩)
    · cases h
  · rintro (⟨i, steps, rfl, h⟩ | ⟨i, steps, rfl, h⟩ | ⟨i, c, j, steps, hc, rfl, h⟩)
    · exact h
    · exact h
    · rw [element?, hc]
      exact h

/-- **A path that leads to an element leads on from there.** -/
theorem node?_append (h : doc.element? path = some e) (rest : Path) :
    doc.node? (path ++ rest) = e.node? rest := by
  rcases element?_eq_some_iff.mp h with
    ⟨i, steps, rfl, he⟩ | ⟨i, steps, rfl, he⟩ | ⟨i, c, j, steps, hc, rfl, he⟩
  · exact Element.bind_node?_append he rest
  · exact Element.bind_node?_append he rest
  · rw [List.cons_append, List.cons_append, node?, hc]
    exact Element.bind_node?_append he rest

/-- **The node at the end of a path is an element** exactly if the path leads to that element. -/
theorem node?_eq_element_iff : doc.node? path = some (.element e) ↔ doc.element? path = some e := by
  constructor
  · intro h
    unfold node? at h
    split at h
    · exact Element.bind_inside?_of_node? h
    · exact Element.bind_inside?_of_node? h
    · exact absurd h (Node.map_ne_element nofun)
    · obtain ⟨c, hc, h⟩ := Option.bind_eq_some_iff.mp h
      rw [element?, hc]
      exact Element.bind_inside?_of_node? h
    · exact absurd h (Node.map_ne_element nofun)
    · obtain ⟨f, -, h⟩ := Option.bind_eq_some_iff.mp h
      exact absurd h (Node.map_ne_element nofun)
    · exact absurd h (Node.map_ne_element nofun)
    · exact absurd h (Node.map_ne_element nofun)
    · obtain ⟨rule, -, h⟩ := Option.bind_eq_some_iff.mp h
      exact absurd h (Node.map_ne_element nofun)
    · cases h
  · intro h
    have hnode := node?_append h []
    rwa [List.append_nil] at hnode

/-- **The elements with their paths are those that paths lead to.** -/
theorem mem_located_iff : (path, e) ∈ doc.located ↔ doc.element? path = some e := by
  rw [element?_eq_some_iff, located, List.mem_append, List.mem_append, or_assoc]
  refine or_congr ?_ (or_congr ?_ ?_)
  · simp only [Element.mem_locatedFrom_iff, Nat.zero_add, List.nil_append]
  · simp only [Element.mem_locatedFrom_iff, Nat.zero_add, List.nil_append]
  · simp only [List.mem_flatMap, Prod.exists, List.mem_zipIdx_iff_getElem?,
      Element.mem_locatedFrom_iff, Nat.zero_add, List.singleton_append]
    constructor
    · rintro ⟨c, i, hc, j, steps, rfl, h⟩
      exact ⟨i, c, j, steps, hc, rfl, h⟩
    · rintro ⟨i, c, j, steps, hc, rfl, h⟩
      exact ⟨c, i, hc, j, steps, rfl, h⟩

/-- Paths into the body lead to its elements. -/
theorem element?_of_bodyElement? (h : doc.bodyElement? path = some e) :
    doc.element? path = some e := by
  unfold bodyElement? at h
  split at h
  · exact h
  · cases h

/-! ## All elements -/

/-- **The elements of a document are those of its parts**, one after the other. -/
theorem map_snd_located (doc : Document) :
    doc.located.map Prod.snd =
      Element.subelementsOf doc.head ++ Element.subelementsOf doc.body ++
        doc.components.flatMap fun c => Element.subelementsOf c.body := by
  have hcomponents :
      doc.components.zipIdx.flatMap (fun (c, _) => Element.subelementsOf c.body) =
        doc.components.flatMap fun c => Element.subelementsOf c.body := by
    have hindexed :=
      List.flatMap_map Prod.fst (fun c => Element.subelementsOf c.body) doc.components.zipIdx
    rw [List.zipIdx_map_fst] at hindexed
    exact hindexed.symm
  rw [located, List.map_append, List.map_append, List.map_flatMap]
  simp only [Element.map_snd_locatedFrom]
  rw [hcomponents]

/-- The elements of components are located in document order. -/
theorem pairwise_located_components (doc : Document) :
    (doc.components.zipIdx.flatMap fun (c, i) =>
      Element.locatedFrom [.component i] .body 0 c.body).Pairwise fun p q => p.1.Before q.1 := by
  have hindices : doc.components.zipIdx.Pairwise fun c c' => c.2 < c'.2 := by
    refine List.pairwise_map.mp ?_
    rw [List.zipIdx_map_snd]
    exact List.pairwise_lt_range'
  refine List.pairwise_flatMap.mpr
    ⟨fun c _ => Element.pairwise_locatedFrom (fun _ => rfl) _ 0 _, hindices.imp ?_⟩
  rintro ⟨c, i⟩ ⟨c', i'⟩ hless ⟨path, e⟩ hp ⟨path', e'⟩ hp'
  obtain ⟨j, steps, rfl, -⟩ := Element.mem_locatedFrom_iff.mp hp
  obtain ⟨j', steps', rfl, -⟩ := Element.mem_locatedFrom_iff.mp hp'
  exact .rel hless

/-- **No two elements have the same path.** Inside a part their paths are in document order, and
paths into different parts differ in the first step. -/
theorem nodup_paths_located (doc : Document) : (doc.located.map Prod.fst).Nodup := by
  have hne {ps : List (Path × Element)} (h : ps.Pairwise fun p q => p.1.Before q.1) :
      ps.Pairwise fun p q => p.1 ≠ q.1 := by
    refine h.imp ?_
    intro p q hbefore heq
    rw [heq] at hbefore
    exact hbefore.asymm hbefore
  have hparts {p q : Path × Element} {part part' : Part} (hp : p.1.part? = some part)
      (hq : q.1.part? = some part') (hpart : part ≠ part') : p.1 ≠ q.1 := by
    intro heq
    rw [heq, hq] at hp
    exact hpart (Option.some.inj hp).symm
  have hhead : ∀ p ∈ Element.locatedFrom [] .head 0 doc.head, p.1.part? = some .head :=
    fun _ => Path.part?_of_mem_locatedFrom (fun _ => rfl)
  have hbody : ∀ p ∈ Element.locatedFrom [] .body 0 doc.body, p.1.part? = some .body :=
    fun _ => Path.part?_of_mem_locatedFrom (fun _ => rfl)
  have hcomponents : ∀ p ∈ doc.components.zipIdx.flatMap fun (c, i) =>
      Element.locatedFrom [.component i] .body 0 c.body, p.1.part? = some .components := by
    intro p hp
    obtain ⟨c, -, hp⟩ := List.mem_flatMap.mp hp
    exact Path.part?_of_mem_locatedFrom (fun _ => rfl) hp
  refine List.pairwise_map.mpr (List.pairwise_append.mpr ⟨List.pairwise_append.mpr ⟨?_, ?_, ?_⟩,
    hne (pairwise_located_components doc), ?_⟩)
  · exact hne (Element.pairwise_locatedFrom (fun _ => rfl) [] 0 doc.head)
  · exact hne (Element.pairwise_locatedFrom (fun _ => rfl) [] 0 doc.body)
  · exact fun p hp q hq => hparts (hhead p hp) (hbody q hq) nofun
  · intro p hp q hq
    rcases List.mem_append.mp hp with hp | hp
    · exact hparts (hhead p hp) (hcomponents q hq) nofun
    · exact hparts (hbody p hp) (hcomponents q hq) nofun

/-- **No two elements have the same text for their path.** -/
theorem nodup_texts_located (doc : Document) : (doc.located.map (·.1.text)).Nodup := by
  have htexts : doc.located.map (·.1.text) = (doc.located.map Prod.fst).map Path.text := by
    rw [List.map_map]
    rfl
  have hne : ∀ path ∈ doc.located.map Prod.fst, path ≠ [] := by
    rintro path hpath rfl
    obtain ⟨⟨_, e⟩, hmem, rfl⟩ := List.mem_map.mp hpath
    cases mem_located_iff.mp hmem
  rw [htexts]
  refine List.Nodup.map_on ?_ (nodup_paths_located doc)
  exact fun path hpath path' hpath' => Path.text_injective (hne path hpath) (hne path' hpath')

/-- **What the text of a path leads to** is what the path leads to. -/
theorem resolve?_text {path : Path} (hne : path ≠ []) :
    doc.resolve? path.text = doc.node? path := by
  rw [resolve?, Path.read?_eq_some_iff.mpr ⟨hne, rfl⟩]
  rfl

/-- **The text leads to an element** exactly if it is the text of a path of the element. -/
theorem resolve?_eq_element_iff {text : String} :
    doc.resolve? text = some (.element e) ↔ ∃ path, (path, e) ∈ doc.located ∧ path.text = text := by
  constructor
  · intro h
    obtain ⟨path, hread, hnode⟩ := Option.bind_eq_some_iff.mp h
    exact ⟨path, mem_located_iff.mpr (node?_eq_element_iff.mp hnode),
      (Path.read?_eq_some_iff.mp hread).2.symm⟩
  · rintro ⟨path, hmem, rfl⟩
    have helement := mem_located_iff.mp hmem
    have hne : path ≠ [] := by
      rintro rfl
      cases helement
    rw [resolve?_text hne]
    exact node?_eq_element_iff.mpr helement

end Document

end Pagewright
