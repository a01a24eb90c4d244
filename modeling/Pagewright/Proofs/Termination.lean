import Pagewright.Proofs.Cycles
import Pagewright.Proofs.Substitution

/-!
# Generation comes to an end

An element that uses a component leads to the component's body by its name, and nothing keeps a
document from using components in circles: the check that reports these may have been left out. Yet
writing a page always ends. A use pushes a frame, and a use inside as many frames as the limit
allows is refused; the elements of one body are finitely many. So every call on the way goes down,
in the frames that are still allowed or else in the elements that are left
(`Document.calls_wellFounded`). Hence the rule by which uses are expanded (`Markup.expandOnce`)
leaves no choice what they stand for, and the expansion by the number of levels left is the one that
obeys the rule (`Markup.eq_expandOnce_iff`).

Every use in a body that is reached is really written, whatever containers it stands in. If a page
is written in the end, then all components that can be reached from it exist, and no chain of uses
is longer than the limit. On a way that leads back to where it has been, chains are of any length.
So a document with such a way is never written.
-/

namespace Pagewright

/-! ## The calls of the walk -/

namespace Document

/-- **The calls that writing elements makes**: for the elements after the first, for the content of
the first, and for the body of a component that the first one uses, inside one more frame. A use
that the limit does not allow makes no call. -/
inductive Calls (doc : Document) : Stack × List Element → Stack × List Element → Prop where
  | rest (stack : Stack) (e : Element) (rest : List Element) :
      Calls doc (stack, rest) (stack, e :: rest)
  | content (stack : Stack) (e : Element) (rest : List Element) :
      Calls doc (stack, e.children) (stack, e :: rest)
  | body {stack : Stack} {name : String} {args : List Expression} {rest : List Element}
      {component : Component} {frame : Frame} (hdepth : stack.depth < depthLimit)
      (hc : doc.component? name = some component)
      (hframe : (component.bind args stack).result = .ok frame) :
      Calls doc (stack.push frame, component.body) (stack, .useComponent name args :: rest)

/-- What is left to do: so many frames may still be pushed, and so many elements are there, with
those in containers. -/
def remaining (call : Stack × List Element) : Nat × Nat :=
  (depthLimit - call.1.depth, (Element.subelementsOf call.2).length)

/-- **Every call leaves less to do**: fewer frames, or as many of them and fewer elements. -/
theorem Calls.remaining_lt {doc : Document} {call call' : Stack × List Element}
    (h : doc.Calls call call') :
    Prod.Lex (· < ·) (· < ·) (remaining call) (remaining call') := by
  cases h with
  | rest stack e rest => exact .right _ (Element.length_subelementsOf_lt e rest).2
  | content stack e rest => exact .right _ (Element.length_subelementsOf_lt e rest).1
  | body hdepth => exact .left _ _ (Nat.sub_succ_lt_self _ _ hdepth)

/-- **Calls do not go on for ever**, whatever components use each other. -/
theorem calls_wellFounded (doc : Document) : WellFounded doc.Calls :=
  Subrelation.wf Calls.remaining_lt
    (InvImage.wf remaining (Prod.lex Nat.lt_wfRel Nat.lt_wfRel).wf)

end Document

/-! ## What uses stand for -/

namespace Markup

open Emission

variable {doc : Document} {source : ClassSource}
  {expand expand' : Stack → String → List Expression → Emission (List Html)}

/-- **The rule for uses of components**: the nodes that a use stands for, if the uses in the body
of its component stand for those that `expand` gives. There must be a component of the name, the
limit must allow one more frame, and the arguments must fit. -/
def expandOnce (doc : Document) (source : ClassSource)
    (expand : Stack → String → List Expression → Emission (List Html)) (stack : Stack)
    (name : String) (args : List Expression) : Emission (List Html) :=
  match doc.component? name with
  | none => throw (.unknownComponent name)
  | some component =>
    if depthLimit ≤ stack.depth then throw (.tooDeep name depthLimit)
    else do
      let frame ← ofEvaluation (component.bind args stack)
      elements ⟨source, doc.landmarks, expand⟩ (stack.push frame) component.body

/-- Only what uses stand for inside the present frames is of any account. -/
theorem elements_congr {landmarks : List Document.Landmark} {stack : Stack}
    (h : ∀ name args, expand stack name args = expand' stack name args) (es : List Element) :
    elements ⟨source, landmarks, expand⟩ stack es
      = elements ⟨source, landmarks, expand'⟩ stack es := by
  have hagrees : Stack.Agrees id stack stack := Stack.agrees_of_top? rfl
  have htranslate : elements ⟨source, landmarks, expand⟩ stack (Element.translateAll id es)
      = elements ⟨source, landmarks, expand'⟩ stack es :=
    elements_translate hagrees (fun name args => by rw [List.map_id, h]) es
  rw [Element.translateAll_id] at htranslate
  exact htranslate

/-- **The expansion by levels obeys the rule**, if it is what uses in the body stand for. -/
theorem expandOnce_eq_instantiate {stack : Stack}
    (h : stack.depth < depthLimit → ∀ frame name args, expand (stack.push frame) name args
      = instantiate doc source (depthLimit - (stack.depth + 1)) (stack.push frame) name args)
    (name : String) (args : List Expression) :
    expandOnce doc source expand stack name args
      = instantiate doc source (depthLimit - stack.depth) stack name args := by
  unfold expandOnce instantiate
  cases doc.component? name with
  | none => rfl
  | some component =>
    by_cases hdepth : depthLimit ≤ stack.depth
    · rw [Nat.sub_eq_zero_of_le hdepth]
      exact if_pos hdepth
    · have hlevels : depthLimit - stack.depth = (depthLimit - (stack.depth + 1)) + 1 := by omega
      rw [hlevels]
      refine (if_neg hdepth).trans (congrArg (_ >>= ·) (funext fun frame => ?_))
      exact elements_congr (h (Nat.lt_of_not_le hdepth) frame) component.body

/-- Whatever obeys the rule is the expansion by levels. The induction is on the levels that are
left: the rule makes a use depend on uses that have fewer of them. -/
theorem eq_instantiate_of_eq_expandOnce (h : expand = expandOnce doc source expand) {levels : Nat}
    {stack : Stack} (hlevels : depthLimit - stack.depth = levels) (name : String)
    (args : List Expression) :
    expand stack name args = instantiate doc source (depthLimit - stack.depth) stack name args := by
  induction levels generalizing stack name args with
  | zero =>
    rw [h]
    refine expandOnce_eq_instantiate (fun hdepth => ?_) name args
    exact absurd (Nat.sub_pos_of_lt hdepth) (by rw [hlevels]; exact Nat.lt_irrefl 0)
  | succ levels ih =>
    rw [h]
    refine expandOnce_eq_instantiate (fun _ frame name args => ih ?_ name args) name args
    show depthLimit - (stack.depth + 1) = levels
    omega

/-- **There is one way only to expand uses by the rule**, and it is the one by the levels that are
left. -/
theorem eq_expandOnce_iff :
    expand = expandOnce doc source expand ↔
      expand = fun stack => instantiate doc source (depthLimit - stack.depth) stack := by
  constructor
  · intro h
    funext stack name args
    exact eq_instantiate_of_eq_expandOnce h rfl name args
  · intro h
    funext stack name args
    have hrule : expandOnce doc source expand stack name args
        = instantiate doc source (depthLimit - stack.depth) stack name args :=
      expandOnce_eq_instantiate (fun _ frame name args => by rw [h]; rfl) name args
    rw [hrule, h]

end Markup

/-! ## What can be reached -/

namespace Document

variable {doc : Document}

/-- **A component's name can be reached** from elements: one of them uses it, however deep in
containers, or it can be reached from the body of a component that one of them uses. -/
inductive Reaches (doc : Document) : List Element → String → Prop where
  | here {es : List Element} {name : String} (huse : name ∈ Element.uses es) : Reaches doc es name
  | through {es : List Element} {name next : String} {component : Component}
      (huse : name ∈ Element.uses es) (hc : doc.component? name = some component)
      (h : Reaches doc component.body next) : Reaches doc es next

/-- A component that can be reached is at the end of a chain. -/
theorem Reaches.exists_chain {es : List Element} {name : String} (h : doc.Reaches es name)
    {component : Component} (hc : doc.component? name = some component) :
    ∃ chain, doc.Chain es (chain ++ [name]) := by
  induction h with
  | here huse => exact ⟨[], .cons huse hc (.nil _)⟩
  | through huse hfirst _ ih =>
    obtain ⟨chain, hchain⟩ := ih hc
    exact ⟨_ :: chain, .cons huse hfirst hchain⟩

/-- A chain goes on from the component at its end. -/
theorem Chain.append {es : List Element} {chain more : List String} {name : String}
    {component : Component} (h : doc.Chain es (chain ++ [name]))
    (hc : doc.component? name = some component) (hmore : doc.Chain component.body more) :
    doc.Chain es (chain ++ [name] ++ more) := by
  induction chain generalizing es with
  | nil =>
    cases h with
    | cons huse hc' _ =>
      cases hc.symm.trans hc'
      exact .cons huse hc hmore
  | cons first chain ih =>
    cases h with
    | cons huse hfirst hrest => exact .cons huse hfirst (ih hrest)

/-- **From a component that comes back to itself, chains are of any length.** -/
theorem exists_long_chain {name : String} {component : Component}
    (hc : doc.component? name = some component) (hcycle : doc.Reaches component.body name)
    {es : List Element} (h : doc.Reaches es name) (n : Nat) :
    ∃ chain, doc.Chain es (chain ++ [name]) ∧ n ≤ chain.length := by
  obtain ⟨round, hround⟩ := hcycle.exists_chain hc
  induction n with
  | zero =>
    obtain ⟨chain, hchain⟩ := h.exists_chain hc
    exact ⟨chain, hchain, Nat.zero_le _⟩
  | succ n ih =>
    obtain ⟨chain, hchain, hlength⟩ := ih
    have hlonger := hchain.append hc hround
    rw [← List.append_assoc] at hlonger
    refine ⟨chain ++ [name] ++ round, hlonger, ?_⟩
    simp only [List.length_append, List.length_singleton]
    omega

end Document

/-! ## What is reached is written -/

namespace Markup

open Emission

variable {doc : Document}

/-- **Elements from which a name without a component can be reached cannot be written**, with
however many levels. -/
theorem elements_fails_of_unknown (source : ClassSource) {es : List Element} {name : String}
    (h : doc.Reaches es name) (hnone : doc.component? name = none) (levels : Nat) (stack : Stack) :
    (elements ⟨source, doc.landmarks, instantiate doc source levels⟩ stack es).Fails := by
  induction h generalizing levels stack with
  | here huse =>
    obtain ⟨args, hargs⟩ := Element.mem_uses.mp huse
    refine elements_fails ?_ _ hargs
    show (instantiate doc source levels stack _ args).Fails
    unfold instantiate
    rw [hnone]
    exact fun _ _ => trivial
  | through huse hc _ ih =>
    obtain ⟨args, hargs⟩ := Element.mem_uses.mp huse
    refine elements_fails ?_ _ hargs
    show (instantiate doc source levels stack _ args).Fails
    unfold instantiate
    rw [hc]
    cases levels with
    | zero => exact fun _ _ => trivial
    | succ levels => exact Fails.bind_right _ (fun frame => ih hnone levels (stack.push frame))

end Markup

namespace Document

open Emission

variable {doc : Document} {source : ClassSource} {options : PageOptions}

/-- Where all files are written, head and body are. -/
theorem not_fails_of_generate {artifacts : Artifacts}
    (h : (doc.generate source options).1 = .ok artifacts) {es : List Element}
    (hes : es = doc.head ∨ es = doc.body) : ¬ (doc.markup source es).Fails := by
  intro hfails
  have hemit : (doc.emit source options).Fails := by
    rcases hes with rfl | rfl
    · exact emit_fails_of_head options hfails
    · exact emit_fails options hfails
  exact hemit.of_ok trivial (Prod.ext h rfl)

/-- **Generation comes to an end, and what it has written is complete.** Whatever the components of
a document use, calls do not go on for ever, and the rule for uses has one solution, which is the
expansion that generation works with. If all files are written, every component that can be reached
from the head or the body exists, and no chain of uses from there is longer than 64. In particular,
a document from which a component can be reached that can be reached from itself is never
written. -/
theorem generate_ok_bounded (doc : Document) (source : ClassSource) :
    WellFounded doc.Calls ∧
      (∀ expand, expand = Markup.expandOnce doc source expand ↔
        expand = fun stack => (Markup.context doc source stack).expand stack) ∧
      ∀ es, es = doc.head ∨ es = doc.body → ∀ options,
        (∀ artifacts, (doc.generate source options).1 = .ok artifacts →
          (∀ name, doc.Reaches es name → ∃ component, doc.component? name = some component) ∧
            ∀ chain, doc.Chain es chain → chain.length ≤ 64) ∧
        ∀ name component, doc.Reaches es name → doc.component? name = some component →
          doc.Reaches component.body name →
            ∃ e, (doc.generate source options).1 = .error e := by
  refine ⟨doc.calls_wellFounded, fun _ => Markup.eq_expandOnce_iff, fun es hes options => ?_⟩
  have hchains : ∀ artifacts, (doc.generate source options).1 = .ok artifacts →
      ∀ chain, doc.Chain es chain → chain.length ≤ depthLimit := by
    intro artifacts hok chain hchain
    refine Nat.le_of_not_lt (fun hlong => not_fails_of_generate hok hes ?_)
    exact Markup.elements_fails_of_chain source hchain hlong .empty
  refine ⟨fun artifacts hok => ⟨fun name hname => ?_, hchains artifacts hok⟩, ?_⟩
  · cases hc : doc.component? name with
    | some component => exact ⟨component, rfl⟩
    | none =>
      refine absurd ?_ (not_fails_of_generate hok hes)
      exact Markup.elements_fails_of_unknown source hname hc _ .empty
  · intro name component hname hc hcycle
    cases hresult : (doc.generate source options).1 with
    | error e => exact ⟨e, rfl⟩
    | ok artifacts =>
      obtain ⟨chain, hchain, hlong⟩ := exists_long_chain hc hcycle hname depthLimit
      have hbound := hchains artifacts hresult _ hchain
      rw [List.length_append, List.length_singleton] at hbound
      omega

/-- A carousel whose slides show the frame around them, inside a section. There is a second
definition of the slides, which does not count. -/
def carousel : Document where
  head := []
  components :=
    [⟨"Frame", [], [.useComponent "Slide" [], .useComponent "Caption" []]⟩,
     ⟨"Slide", [], [.sectionBlock .none none [.div .none [.useComponent "Frame" []]]]⟩,
     ⟨"Slide", [], []⟩]
  body := [.div .none [.useComponent "Frame" []]]
  functions := []
  statements := []
  styles := []

/-- The carousel is never written. The board is, so all that can be reached from it exists. -/
theorem generate_ok_bounded_carousel :
    carousel.Reaches carousel.body "Slide" ∧
      (∃ e, (carousel.generate (fun _ => []) {}).1 = .error e) ∧
      (∃ artifacts, (board.generate (fun _ => []) {}).1 = .ok artifacts) ∧
      board.Reaches board.body "Card" ∧
      ∀ name, board.Reaches board.body name → ∃ c, board.component? name = some c := by
  obtain ⟨-, -, hcarousel⟩ := generate_ok_bounded carousel (fun _ => [])
  obtain ⟨-, -, hboard⟩ := generate_ok_bounded board (fun _ => [])
  have hframe : "Frame" ∈ Element.uses carousel.body := by decide
  have hslide : carousel.Reaches carousel.body "Slide" := .through hframe rfl (.here (by decide))
  have hinside : "Frame" ∈ Element.uses [.sectionBlock .none none
      [.div .none [.useComponent "Frame" []]]] := by decide
  have hfirst : "Board" ∈ Element.uses board.body := by decide
  refine ⟨hslide, ?_, ⟨_, rfl⟩, .through hfirst rfl (.here (by decide)), ?_⟩
  · refine (hcarousel _ (.inr rfl) {}).2 "Slide" _ hslide rfl ?_
    exact .through hinside rfl (.here (by decide))
  · exact ((hboard _ (.inr rfl) {}).1 _ rfl).1

end Document

end Pagewright
