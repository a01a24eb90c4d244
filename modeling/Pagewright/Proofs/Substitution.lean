import Pagewright.Generation.Markup
import Pagewright.Proofs.Translation

/-!
# Using a component is substitution

A component is expanded by pushing a frame with the values of its arguments, and the names in its
body are looked up in that frame when their turn comes. One could as well have put the values in
place of the names first, in all expressions of the body, and then have written the body with no
names known at all. This module proves that the two come to the same: the same nodes or the same
error, and the same run, warnings included.

The proof treats a change of expressions and a change of stacks together. A translation of
expressions agrees with two stacks if what is translated has the same evaluation in the second
stack as the original in the first (`Stack.Agrees`). Then the elements that are translated
throughout are written in the second stack as the originals are in the first. The substitution of
values for names is one such translation. That nothing is translated is another, between any two
stacks with the same innermost frame: so the frames further out do not matter.
-/

namespace Pagewright

/-- **The translation agrees with the stacks**: what is translated has the same evaluation in the
second stack as the original in the first. -/
def Stack.Agrees (σ : Expression → Expression) (stack stack' : Stack) : Prop :=
  ∀ x : Expression, (σ x).evaluate stack' = x.evaluate stack

namespace Stack.Agrees

open Emission

variable {σ : Expression → Expression} {stack stack' : Stack} (h : Agrees σ stack stack')

include h

/-! ## Parts of an element -/

theorem value (x : Expression) : value stack' (σ x) = value stack x :=
  congrArg ofEvaluation (h x)

theorem shown (x : Expression) : shown stack' (σ x) = shown stack x := by
  unfold Emission.shown
  rw [h.value]

theorem shown? (x : Option Expression) : shown? stack' (x.map σ) = shown? stack x := by
  cases x with
  | none => rfl
  | some x =>
    show (do return some (← Emission.shown stack' (σ x))) = _
    rw [h.shown]
    rfl

theorem written (d : Declaration) : (d.translate σ).written stack' = d.written stack := by
  unfold Declaration.written Declaration.translate
  rw [h.value]

theorem inlineStyle (css : List Declaration) :
    inlineStyle stack' (css.map (Declaration.translate σ)) = inlineStyle stack css := by
  unfold Pagewright.inlineStyle
  rw [List.mapM_map, show Declaration.written stack' ∘ Declaration.translate σ
    = Declaration.written stack from funext h.written]

theorem attributes (source : ClassSource) (own : List String) (attrs : Attributes) :
    Markup.attributes source stack' own (attrs.translate σ)
      = Markup.attributes source stack own attrs := by
  unfold Markup.attributes Attributes.translate
  rw [h.inlineStyle]

theorem clickCall (click : Click) :
    Markup.clickCall stack' (click.translate σ) = Markup.clickCall stack click := by
  unfold Markup.clickCall Click.translate
  rw [List.mapM_map, show Emission.value stack' ∘ σ = Emission.value stack from funext h.value]

theorem clickCall? (click : Option Click) :
    (click.map (Click.translate σ)).mapM (Markup.clickCall stack')
      = click.mapM (Markup.clickCall stack) := by
  cases click with
  | none => rfl
  | some click => exact congrArg (some <$> ·) (h.clickCall click)

theorem entries (context : Markup.Context)
    (expand : Stack → String → List Expression → Emission (List Html)) (links : List NavLink)
    (auto : Bool) :
    Markup.entries { context with expand } stack' (links.map (NavLink.translate σ)) auto
      = Markup.entries context stack links auto := by
  have hentry : ∀ link : NavLink, Markup.entry stack' link.target (link.text.map σ)
      = Markup.entry stack link.target link.text := by
    intro link
    unfold Markup.entry
    rw [h.shown?]
  cases auto with
  | true => rfl
  | false =>
    show (links.map (NavLink.translate σ)).mapM _ = links.mapM _
    rw [List.mapM_map]
    exact congrArg (links.mapM ·) (funext hentry)

/-- Arguments that are translated are bound to the same values. -/
theorem bindEach (component : String) (params : List Parameter) (args : List Expression) :
    bindEach component stack' params (args.map σ) = bindEach component stack params args := by
  induction params generalizing args with
  | nil => rfl
  | cons param params ih =>
    cases args with
    | nil => rfl
    | cons arg args =>
      rw [List.map_cons, Pagewright.bindEach, Pagewright.bindEach, h arg, ih args]

theorem bind (component : Component) (args : List Expression) :
    component.bind (args.map σ) stack' = component.bind args stack := by
  unfold Component.bind
  rw [List.length_map, h.bindEach]

end Stack.Agrees

/-! ## Elements -/

namespace Markup

variable {σ : Expression → Expression} {stack stack' : Stack} {source : ClassSource}
  {landmarks : List Document.Landmark}
  {expand expand' : Stack → String → List Expression → Emission (List Html)}

mutual

/-- A translated element is written as the original, if uses of components are. -/
theorem element_translate (h : Stack.Agrees σ stack stack')
    (hexpand : ∀ name args, expand' stack' name (args.map σ) = expand stack name args)
    (e : Element) :
    element ⟨source, landmarks, expand'⟩ stack' (e.translate σ)
      = element ⟨source, landmarks, expand⟩ stack e := by
  match e with
  | .title text =>
    rw [Element.translate, element, element, h.shown]
  | .icon path =>
    rw [Element.translate, element, element, h.shown]
  | .div attrs content =>
    have hcontent := elements_translate h hexpand content
    have hempty : (Element.translateAll σ content).isEmpty = content.isEmpty := by
      cases content <;> rfl
    rw [Element.translate, element, element, h.attributes, hcontent, hempty]
  | .sectionBlock attrs caption content =>
    have hcontent := elements_translate h hexpand content
    have hempty : (Element.translateAll σ content).isEmpty = content.isEmpty := by
      cases content <;> rfl
    rw [Element.translate, element, element, h.attributes, h.shown?, hcontent, hempty]
  | .paragraph attrs text =>
    rw [Element.translate, element, element, h.attributes, h.shown]
  | .heading attrs level text =>
    rw [Element.translate, element, element, h.attributes, h.shown]
  | .link attrs url text =>
    have htext : (text.map σ).getD (σ url) = σ (text.getD url) := by
      cases text <;> rfl
    rw [Element.translate, element, element, h.attributes, h.shown, htext, h.shown]
  | .image attrs path alt =>
    rw [Element.translate, element, element, h.attributes, h.shown, h.shown?]
  | .button attrs text onclick =>
    rw [Element.translate, element, element, h.attributes, h.shown, h.clickCall?]
  | .textbox attrs label placeholder labelAfter =>
    rw [Element.translate, element, element, h.attributes, h.shown?, h.shown?]
    rfl
  | .linebreak => rfl
  | .topbar attrs caption home links autoNavLinks =>
    rw [Element.translate, element, element, h.attributes, h.shown, h.shown?,
      h.entries ⟨source, landmarks, expand⟩ expand']
  | .footer attrs text =>
    rw [Element.translate, element, element, h.attributes, h.shown]
  | .useComponent component arguments => exact hexpand component arguments

/-- **Translated elements are written as the originals**, if uses of components are. -/
theorem elements_translate (h : Stack.Agrees σ stack stack')
    (hexpand : ∀ name args, expand' stack' name (args.map σ) = expand stack name args)
    (es : List Element) :
    elements ⟨source, landmarks, expand'⟩ stack' (Element.translateAll σ es)
      = elements ⟨source, landmarks, expand⟩ stack es := by
  match es with
  | [] => rfl
  | e :: rest =>
    rw [Element.translateAll, elements, elements, element_translate h hexpand e,
      elements_translate h hexpand rest]

end

end Markup

/-! ## Frames further out -/

/-- **Only the innermost frame is looked at**: an expression has the same evaluation in all stacks
with the same innermost frame. -/
theorem Stack.agrees_of_top? {stack stack' : Stack} (h : stack'.top? = stack.top?) :
    Agrees id stack stack' := by
  intro x
  show x.evaluate stack' = x.evaluate stack
  induction x with
  | text value => rfl
  | number value => rfl
  | textbox name => rfl
  | symbol name =>
    have hlookup : stack'.lookup? name = stack.lookup? name := congrArg (·.bind (·.get? name)) h
    rw [Expression.evaluate, Expression.evaluate, hlookup]
  | operation left op right ihl ihr =>
    rw [Expression.evaluate, Expression.evaluate, ihl, ihr]

namespace Markup

variable {σ : Expression → Expression} {stack stack' : Stack}

/-- **A use of a component with translated arguments** is written as the original use. The body is
not translated, and in it the two stacks have the same innermost frame: the induction is on the
levels left for the uses there. -/
theorem instantiate_translate (doc : Document) (source : ClassSource) (levels : Nat)
    (h : Stack.Agrees σ stack stack') (name : String) (args : List Expression) :
    instantiate doc source levels stack' name (args.map σ)
      = instantiate doc source levels stack name args := by
  induction levels generalizing σ stack stack' name args with
  | zero =>
    unfold instantiate
    cases doc.component? name <;> rfl
  | succ levels ih =>
    unfold instantiate
    cases doc.component? name with
    | none => rfl
    | some component =>
      show Emission.ofEvaluation (component.bind (args.map σ) stack') >>= _
        = Emission.ofEvaluation (component.bind args stack) >>= _
      rw [h.bind]
      refine congrArg (_ >>= ·) (funext (fun frame => ?_))
      -- The translation ends with the arguments: the body is the same on both sides.
      have htop : Stack.Agrees id (stack.push frame) (stack'.push frame) :=
        Stack.agrees_of_top? rfl
      have hbody : elements ⟨source, doc.landmarks, instantiate doc source levels⟩
          (stack'.push frame) (Element.translateAll id component.body)
          = elements ⟨source, doc.landmarks, instantiate doc source levels⟩ (stack.push frame)
            component.body :=
        elements_translate htop (ih htop) component.body
      rw [Element.translateAll_id] at hbody
      exact hbody

end Markup

/-! ## Values in place of names -/

/-- The literal of a value. -/
def Value.literal : Value → Expression
  | text s => .text s
  | number x => .number x

/-- The expression with the names that a frame binds replaced by the literals of their values. -/
def Expression.substitute (frame : Frame) : Expression → Expression
  | text value => text value
  | number value => number value
  | symbol name => ((frame.get? name).map Value.literal).getD (symbol name)
  | textbox name => textbox name
  | operation left op right => operation (left.substitute frame) op (right.substitute frame)

/-- **Substitution agrees** with a stack whose innermost frame is the one substituted and any stack
whose innermost frame is empty. -/
theorem Stack.agrees_substitute {stack stack' : Stack} {frame : Frame}
    (h : stack.top? = some frame) (h' : stack'.top? = some []) :
    Agrees (Expression.substitute frame) stack stack' := by
  intro x
  induction x with
  | text value => rfl
  | number value => rfl
  | textbox name => rfl
  | symbol name =>
    have hlookup : stack.lookup? name = frame.get? name := by
      unfold Stack.lookup?
      rw [h]
      rfl
    have hlookup' : stack'.lookup? name = none := by
      unfold Stack.lookup?
      rw [h']
      rfl
    rw [Expression.substitute, Expression.evaluate, hlookup]
    cases hvalue : frame.get? name with
    | none =>
      -- The name stays, and it has no value in either stack.
      show (Expression.symbol name).evaluate stack' = _
      rw [Expression.evaluate, hlookup']
    | some value => cases value <;> rfl
  | operation left op right ihl ihr =>
    rw [Expression.substitute, Expression.evaluate, Expression.evaluate, ihl, ihr]

/-- The element with the names that a frame binds replaced by the literals of their values, in all
its expressions and in those of its content. -/
def Element.substitute (frame : Frame) : Element → Element :=
  translate (Expression.substitute frame)

/-- The text of nodes that stand so many levels deep. -/
def Html.renderAt (level : Nat) (nodes : List Html) : String :=
  String.join
    (((Layout.linesOf (Html.layoutAll nodes)).map (Nat.repeat Layout.deeper level)).map (· ++ "\n"))

namespace Markup

/-- Stacks of the same depth with the same innermost frame are as good as each other. -/
theorem element_eq_of_top? (doc : Document) (source : ClassSource) {stack stack' : Stack}
    (hdepth : stack'.depth = stack.depth) (htop : stack'.top? = stack.top?) (e : Element) :
    element (context doc source stack') stack' e = element (context doc source stack) stack e := by
  have hagrees := Stack.agrees_of_top? htop
  unfold context
  rw [hdepth]
  have helement : element ⟨source, doc.landmarks, _⟩ stack' (e.translate id)
      = element ⟨source, doc.landmarks, _⟩ stack e :=
    element_translate hagrees
      (instantiate_translate doc source (depthLimit - stack.depth) hagrees) e
  rw [Element.translate_id] at helement
  exact helement

/-- **A use of a component is the component's body with values in place of names**, once the
arguments have been bound. -/
theorem element_useComponent_eq (doc : Document) (source : ClassSource) {name : String}
    {component : Component} (hc : doc.component? name = some component)
    {args : List Expression} {stack stack' : Stack} (hdepth : stack.depth < depthLimit)
    {frame : Frame} (hframe : (component.bind args stack).result = .ok frame)
    (hdepth' : stack'.depth = stack.depth + 1) (htop : stack'.top? = some []) (run : Run) :
    (element (context doc source stack) stack (.useComponent name args)).on run
      = (elements (context doc source stack') stack'
          (component.body.map (Element.substitute frame))).on
          (run.warned (component.bind args stack).warnings) := by
  -- The use takes one level, and the deeper stack has one level less to give.
  have hlevels : depthLimit - stack.depth = (depthLimit - stack'.depth) + 1 := by omega
  have hagrees : Stack.Agrees (Expression.substitute frame) (stack.push frame) stack' :=
    Stack.agrees_substitute rfl htop
  have hbody : elements (context doc source stack') stack'
        (component.body.map (Element.substitute frame))
      = elements (context doc source stack') (stack.push frame) component.body := by
    unfold Element.substitute
    rw [← Element.translateAll_eq_map]
    exact elements_translate hagrees (instantiate_translate doc source _ hagrees) component.body
  have huse : element (context doc source stack) stack (.useComponent name args)
      = Emission.ofEvaluation (component.bind args stack) >>= fun frame =>
          elements (context doc source stack') (stack.push frame) component.body := by
    show instantiate doc source (depthLimit - stack.depth) stack name args = _
    rw [hlevels]
    unfold instantiate
    rw [hc]
    rfl
  rw [huse, hbody, Emission.on_bind, Emission.on_ofEvaluation, hframe]

end Markup

/-- **Using a component is substitution.** Where the arguments of a use can be bound, the use is
written as the component's body with the values of the arguments in place of the parameters, in any
stack that is one frame deeper and whose innermost frame is empty: the nodes or the error are the
same, and so is the text at every level of indentation, and the run is the same that begins with
the warnings of the arguments. And of the frames of a stack none but the innermost has any
influence. -/
theorem Document.use_eq_substitution (doc : Document) (source : ClassSource) (name : String)
    (component : Component) (hc : doc.component? name = some component)
    (args : List Expression) (stack : Stack) (hdepth : stack.depth < 64) (frame : Frame)
    (hframe : (component.bind args stack).result = .ok frame) :
    (∀ stack' : Stack, stack'.depth = stack.depth + 1 → stack'.top? = some [] →
      ∀ (level : Nat) (run : Run),
        let used := Markup.element (Markup.context doc source stack) stack (.useComponent name args)
        let substituted := Markup.elements (Markup.context doc source stack') stack'
          (component.body.map (Element.substitute frame))
        let run' := run.warned (component.bind args stack).warnings
        (ExceptT.run used).run run = (ExceptT.run substituted).run run' ∧
          (ExceptT.run (Html.renderAt level <$> used)).run run
            = (ExceptT.run (Html.renderAt level <$> substituted)).run run') ∧
      ∀ other : Stack, other.depth = stack.depth → other.top? = stack.top? → ∀ e,
        Markup.element (Markup.context doc source other) other e
          = Markup.element (Markup.context doc source stack) stack e := by
  refine ⟨fun stack' hdepth' htop level run => ?_, fun other hother htop e => ?_⟩
  · have hnodes := Markup.element_useComponent_eq doc source hc hdepth hframe hdepth' htop run
    refine ⟨hnodes, ?_⟩
    rw [map_eq_pure_bind, map_eq_pure_bind]
    show Emission.on _ run = Emission.on _ _
    rw [Emission.on_bind, Emission.on_bind, hnodes]
  · exact Markup.element_eq_of_top? doc source hother htop e

/-- A card that hands its parameter on to a label with a parameter of the same name. -/
def Component.card : Component where
  name := "Card"
  params := [⟨"task", .string⟩]
  body := [.paragraph .none (.symbol "task"), .useComponent "Label" [.symbol "task"]]

/-- A document with the card and its label. -/
def Document.labelledCard : Document where
  head := []
  components :=
    [.card, ⟨"Label", [⟨"task", .string⟩], [.heading .none 2 (.symbol "task")]⟩]
  body := []
  functions := []
  statements := []
  styles := []

/-- The card used inside a frame that binds the same name once more. -/
theorem Document.use_eq_substitution_labelledCard :
    let stack := Stack.empty.push [⟨"task", .string, .text "Bread"⟩]
    let args := [Expression.operation (.symbol "task") .add (.text "!")]
    let frame : Frame := [⟨"task", .string, .text "Bread!"⟩]
    labelledCard.component? "Card" = some .card ∧
      (Component.card.bind args stack).result = .ok frame ∧
      (ExceptT.run (Html.renderAt 1 <$> Markup.element
          (Markup.context labelledCard (fun _ => []) stack) stack (.useComponent "Card" args))).run
          .fresh
        = (ExceptT.run (Html.renderAt 1 <$> Markup.elements
            (Markup.context labelledCard (fun _ => []) ⟨[[], []]⟩) ⟨[[], []]⟩
            (Component.card.body.map (Element.substitute frame)))).run
          (Run.fresh.warned (Component.card.bind args stack).warnings) := by
  intro stack args frame
  have hc : labelledCard.component? "Card" = some .card := rfl
  have hframe : (Component.card.bind args stack).result = .ok frame := rfl
  have huse := (use_eq_substitution labelledCard (fun _ => []) "Card" .card hc args stack
    (by decide) frame hframe).1 ⟨[[], []]⟩ rfl rfl 1 .fresh
  exact ⟨hc, hframe, huse.2⟩

end Pagewright
