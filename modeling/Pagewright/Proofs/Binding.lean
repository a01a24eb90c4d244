import Pagewright.Proofs.Soundness

/-!
# Binding arguments to parameters

A use of a component binds its arguments to the parameters, position by position, and stops at the
first that does not do. The evaluation of the arguments, the comparison of types and the collection
of warnings go hand in hand there. Here they are taken apart. Each parameter for itself takes its
argument or refuses it with an error (`Parameter.Takes`, `Parameter.Refuses`), and one of the two is
the case. All else follows from where the first argument is refused, if any is:

* if none is, the frame holds the values of all of them (`Frame.Binds`), and all have given their
  warnings;
* otherwise the error is that of the first one refused (`FirstRefused`), and the arguments after it
  have not even been evaluated.

The arguments are evaluated where the component is used. Of the frames there only the innermost
matters (`Expression.evaluate_innermost`).
-/

namespace Pagewright

open Evaluation

/-! ## The innermost frame -/

/-- The innermost frame alone, with nothing below it. -/
def Stack.innermost (stack : Stack) : Stack :=
  ⟨stack.top?.toList⟩

theorem Stack.lookup?_innermost (stack : Stack) (name : String) :
    stack.innermost.lookup? name = stack.lookup? name := by
  unfold innermost lookup? top?
  cases stack.frames <;> rfl

/-- **An expression sees the innermost frame and no other.** -/
theorem Expression.evaluate_innermost (stack : Stack) (e : Expression) :
    e.evaluate stack.innermost = e.evaluate stack := by
  induction e with
  | text value => rfl
  | number value => rfl
  | textbox name => rfl
  | symbol name =>
    unfold evaluate
    rw [stack.lookup?_innermost]
  | operation left op right ihl ihr => rw [evaluate_operation, evaluate_operation, ihl, ihr]

/-! ## One parameter and its argument -/

/-- **The parameter takes the argument**: it has a value, which is of the parameter's type. -/
def Parameter.Takes (param : Parameter) (stack : Stack) (arg : Expression) : Prop :=
  ∃ v, (arg.evaluate stack).result = .ok v ∧ v.type = param.type

/-- **The parameter refuses the argument** with this error: either the argument has no value, or its
value is of another type, and then the error names the parameter. -/
inductive Parameter.Refuses (param : Parameter) (component : String) (stack : Stack)
    (arg : Expression) : GenerationError → Prop where
  | valueless {e : GenerationError} (h : (arg.evaluate stack).result = .error e) :
      Refuses param component stack arg e
  | mistyped {v : Value} (h : (arg.evaluate stack).result = .ok v) (htype : v.type ≠ param.type) :
      Refuses param component stack arg
        (.argumentType component param.name param.type v.type)

section Parameter

variable {param : Parameter} {component : String} {stack : Stack} {arg : Expression}
  {e e' : GenerationError}

theorem Parameter.Refuses.not_takes (h : param.Refuses component stack arg e) :
    ¬ param.Takes stack arg := by
  rintro ⟨v, hv, htype⟩
  cases h with
  | valueless herror =>
    rw [hv] at herror
    cases herror
  | mistyped hv' hne =>
    rw [hv] at hv'
    cases hv'
    exact hne htype

/-- An argument is refused for one reason. -/
theorem Parameter.Refuses.unique (h : param.Refuses component stack arg e)
    (h' : param.Refuses component stack arg e') : e = e' := by
  cases h with
  | valueless h =>
    cases h' with
    | valueless h' =>
      rw [h] at h'
      cases h'
      rfl
    | mistyped h' _ =>
      rw [h] at h'
      cases h'
  | mistyped h _ =>
    cases h' with
    | valueless h' =>
      rw [h] at h'
      cases h'
    | mistyped h' _ =>
      rw [h] at h'
      cases h'
      rfl

end Parameter

/-! ## All of them, from left to right -/

/-- The warnings of arguments that are evaluated one after the other. -/
def warningsOf (stack : Stack) (args : List Expression) : List Warning :=
  args.flatMap fun arg => (arg.evaluate stack).warnings

/-- **What a frame holds once the arguments are bound**: a name stands for the value of the first
parameter of that name, and a name without a parameter for nothing. -/
structure Frame.Binds (frame : Frame) (stack : Stack) (params : List Parameter)
    (args : List Expression) : Prop where
  first : ∀ i param arg, (params.zip args)[i]? = some (param, arg) →
    (∀ pair ∈ (params.zip args).take i, pair.1.name ≠ param.name) →
      ∃ v, (arg.evaluate stack).result = .ok v ∧ frame.get? param.name = some v
  other : ∀ name, name ∉ params.map (·.name) → frame.get? name = none

/-- **The argument in place `i` is the first to be refused**, with this error. -/
structure FirstRefused (component : String) (stack : Stack) (params : List Parameter)
    (args : List Expression) (i : Nat) (e : GenerationError) : Prop where
  refused : ∃ param arg, (params.zip args)[i]? = some (param, arg) ∧
    param.Refuses component stack arg e
  taken : ∀ pair ∈ (params.zip args).take i, pair.1.Takes stack pair.2

section Arguments

variable {component : String} {stack : Stack} {params : List Parameter} {args : List Expression}
  {i i' : Nat} {e e' : GenerationError}

/-- If an argument is refused, not all are taken. -/
theorem FirstRefused.not_taken (h : FirstRefused component stack params args i e) :
    ¬ ∀ pair ∈ params.zip args, pair.1.Takes stack pair.2 := by
  obtain ⟨param, arg, hi, hrefuses⟩ := h.refused
  exact fun htaken => hrefuses.not_takes (htaken _ (List.mem_of_getElem? hi))

/-- The argument that is refused does not come before one that all are taken in front of. -/
theorem FirstRefused.le (h : FirstRefused component stack params args i e)
    (h' : FirstRefused component stack params args i' e') : i' ≤ i := by
  obtain ⟨param, arg, hi, hrefuses⟩ := h.refused
  refine Nat.le_of_not_lt (fun hlt => hrefuses.not_takes (h'.taken (param, arg) ?_))
  refine List.mem_of_getElem? (i := i) ?_
  rw [List.getElem?_take_of_lt hlt, hi]

/-- **There is one first argument that is refused**, and one error. -/
theorem FirstRefused.unique (h : FirstRefused component stack params args i e)
    (h' : FirstRefused component stack params args i' e') : i = i' ∧ e = e' := by
  obtain rfl : i = i' := Nat.le_antisymm (h'.le h) (h.le h')
  obtain ⟨param, arg, hi, hrefuses⟩ := h.refused
  obtain ⟨param', arg', hi', hrefuses'⟩ := h'.refused
  rw [hi] at hi'
  cases hi'
  exact ⟨rfl, hrefuses.unique hrefuses'⟩

/-- The first binding of a frame hides the others of its name. -/
theorem Frame.get?_cons (b : Binding) (frame : Frame) (name : String) :
    Frame.get? (b :: frame) name = if b.name = name then some b.value else frame.get? name := by
  unfold Frame.get?
  by_cases hname : b.name = name <;> simp [hname]

/-- A parameter in front whose argument is taken is the first to be found in the frame. -/
theorem Frame.Binds.cons {frame : Frame} {param : Parameter} {arg : Expression} {v : Value}
    (h : frame.Binds stack params args) (hv : (arg.evaluate stack).result = .ok v) :
    Frame.Binds (⟨param.name, param.type, v⟩ :: frame) stack (param :: params) (arg :: args) := by
  refine ⟨fun i p a hi hfirst => ?_, fun name hname => ?_⟩
  · cases i with
    | zero =>
      cases hi
      exact ⟨v, hv, by rw [get?_cons, if_pos rfl]⟩
    | succ i =>
      have hne : param.name ≠ p.name := hfirst (param, arg) List.mem_cons_self
      obtain ⟨w, hw, hwget⟩ :=
        h.first i p a hi (fun pair hpair => hfirst pair (List.mem_cons_of_mem _ hpair))
      exact ⟨w, hw, by rw [get?_cons, if_neg hne, hwget]⟩
  · rw [List.map_cons, List.mem_cons, not_or] at hname
    rw [get?_cons, if_neg (Ne.symm hname.1), h.other name hname.2]

/-- An argument in front that is taken moves the first one refused by one place. -/
theorem FirstRefused.cons {param : Parameter} {arg : Expression}
    (h : FirstRefused component stack params args i e) (htakes : param.Takes stack arg) :
    FirstRefused component stack (param :: params) (arg :: args) (i + 1) e :=
  ⟨h.refused, List.forall_mem_cons.mpr ⟨htakes, h.taken⟩⟩

/-- **Binding takes every argument, or it refuses one.** -/
theorem bindEach_takes_or_refuses (component : String) (stack : Stack)
    (hlength : params.length = args.length) :
    (∃ frame : Frame, (bindEach component stack params args).result = .ok frame ∧
        (bindEach component stack params args).warnings = warningsOf stack args ∧
        (∀ pair ∈ params.zip args, pair.1.Takes stack pair.2) ∧ frame.Binds stack params args) ∨
      ∃ i e, FirstRefused component stack params args i e ∧
        (bindEach component stack params args).result = .error e ∧
        (bindEach component stack params args).warnings = warningsOf stack (args.take (i + 1)) := by
  induction params generalizing args with
  | nil =>
    obtain rfl := List.length_eq_zero_iff.mp hlength.symm
    exact .inl ⟨[], rfl, rfl, fun _ => nofun, ⟨fun _ _ _ => nofun, fun _ _ => rfl⟩⟩
  | cons param params ih =>
    cases args with
    | nil => cases hlength
    | cons arg args =>
      rw [result_bindEach_cons, warnings_bindEach_cons]
      -- an argument that is refused in front is the first one
      have hfront {e : GenerationError} (h : param.Refuses component stack arg e) :
          FirstRefused component stack (param :: params) (arg :: args) 0 e :=
        ⟨⟨param, arg, rfl, h⟩, fun _ => nofun⟩
      cases hv : (arg.evaluate stack).result with
      | error e => exact .inr ⟨0, e, hfront (.valueless hv), rfl, rfl⟩
      | ok v =>
        dsimp only [Except.bind]
        by_cases htype : v.type = param.type
        · rw [if_pos htype, if_pos htype]
          have htakes : param.Takes stack arg := ⟨v, hv, htype⟩
          rcases ih (Nat.succ.inj hlength) with
            ⟨frame, hresult, hwarnings, htaken, hbinds⟩ | ⟨i, e, hrefused, hresult, hwarnings⟩
          · rw [hresult, hwarnings]
            exact .inl ⟨_, rfl, rfl, List.forall_mem_cons.mpr ⟨htakes, htaken⟩, hbinds.cons hv⟩
          · rw [hresult, hwarnings]
            exact .inr ⟨i + 1, e, hrefused.cons htakes, rfl, rfl⟩
        · rw [if_neg htype, if_neg htype]
          exact .inr ⟨0, _, hfront (.mistyped hv htype), rfl, rfl⟩

end Arguments

/-! ## The arguments of a use -/

theorem Component.bind_innermost (component : Component) (args : List Expression)
    (caller : Stack) : component.bind args caller.innermost = component.bind args caller := by
  have heach (params : List Parameter) (args : List Expression) :
      bindEach component.name caller.innermost params args
        = bindEach component.name caller params args := by
    induction params generalizing args with
    | nil => rfl
    | cons param params ih =>
      cases args with
      | nil => rfl
      | cons arg args =>
        unfold bindEach
        rw [Expression.evaluate_innermost, ih]
  unfold bind
  rw [heach]

/-- **The three ways in which binding goes**: the counts differ, all arguments are taken, or one is
the first to be refused. -/
theorem Component.bind_cases (component : Component) (args : List Expression) (stack : Stack) :
    (component.params.length ≠ args.length ∧
      ∀ ws, (ExceptT.run (component.bind args stack)).run ws
        = (.error (.argumentCount component.name component.params.length args.length), ws)) ∨
    (component.params.length = args.length ∧
      ((∃ frame : Frame, (∀ pair ∈ component.params.zip args, pair.1.Takes stack pair.2) ∧
          frame.Binds stack component.params args ∧
          ∀ ws, (ExceptT.run (component.bind args stack)).run ws
            = (.ok frame, ws ++ warningsOf stack args)) ∨
        ∃ i e, FirstRefused component.name stack component.params args i e ∧
          ∀ ws, (ExceptT.run (component.bind args stack)).run ws
            = (.error e, ws ++ warningsOf stack (args.take (i + 1))))) := by
  unfold bind
  by_cases hlength : component.params.length = args.length
  · rw [if_pos hlength]
    refine .inr ⟨hlength, ?_⟩
    have hrun := appends_bindEach component.name stack component.params args
    rcases bindEach_takes_or_refuses component.name stack hlength with
      ⟨frame, hresult, hwarnings, htaken, hbinds⟩ | ⟨i, e, hrefused, hresult, hwarnings⟩
    · refine .inl ⟨frame, htaken, hbinds, fun ws => ?_⟩
      rw [hrun ws, hresult, hwarnings]
    · refine .inr ⟨i, e, hrefused, fun ws => ?_⟩
      rw [hrun ws, hresult, hwarnings]
  · rw [if_neg hlength]
    exact .inl ⟨hlength, fun ws => rfl⟩

/-- **Arguments are bound from left to right.** Let arguments be bound to the parameters of a
component, with some warnings given before. An argument has the value and the warnings that it has
in the caller's innermost frame.

* Binding succeeds if and only if there are as many arguments as parameters and each parameter takes
  its argument.
* The frame then holds for each name the value of the first parameter of that name and nothing
  else, and the warnings of all arguments have been added in order.
* Binding fails without any new warning if the counts differ. If they do not, it fails with the
  error of the first argument that is refused, after the warnings of the arguments up to that
  one. -/
theorem Component.bind_takes_or_refuses (component : Component) (args : List Expression)
    (caller : Stack) (ws : List Warning) :
    (∀ arg ∈ args, ∀ before, (ExceptT.run (arg.evaluate caller)).run before
        = ((arg.evaluate caller.innermost).result,
          before ++ (arg.evaluate caller.innermost).warnings)) ∧
      ((∃ frame ws', (ExceptT.run (component.bind args caller)).run ws = (.ok frame, ws')) ↔
        component.params.length = args.length ∧
          ∀ pair ∈ component.params.zip args, pair.1.Takes caller.innermost pair.2) ∧
      (∀ frame ws', (ExceptT.run (component.bind args caller)).run ws = (.ok frame, ws') →
        frame.Binds caller.innermost component.params args ∧
          ws' = ws ++ warningsOf caller.innermost args) ∧
      ∀ e ws', (ExceptT.run (component.bind args caller)).run ws = (.error e, ws') ↔
        (component.params.length ≠ args.length ∧
          e = .argumentCount component.name component.params.length args.length ∧ ws' = ws) ∨
        (component.params.length = args.length ∧
          ∃ i, FirstRefused component.name caller.innermost component.params args i e ∧
            ws' = ws ++ warningsOf caller.innermost (args.take (i + 1))) := by
  refine ⟨fun arg _ before => ?_, ?_⟩
  · rw [Expression.evaluate_innermost]
    exact Expression.appends_evaluate caller arg before
  rw [← component.bind_innermost args caller]
  generalize caller.innermost = stack
  rcases component.bind_cases args stack with
    ⟨hne, hrun⟩ | ⟨hlength, ⟨frame, htaken, hbinds, hrun⟩ | ⟨i, e, hrefused, hrun⟩⟩
  · rw [hrun ws]
    refine ⟨⟨nofun, fun h => absurd h.1 hne⟩, nofun, fun e ws' => ⟨fun h => ?_, ?_⟩⟩
    · cases h
      exact .inl ⟨hne, rfl, rfl⟩
    · rintro (⟨-, rfl, rfl⟩ | ⟨hlength, -⟩)
      · rfl
      · exact absurd hlength hne
  · rw [hrun ws]
    refine ⟨⟨fun _ => ⟨hlength, htaken⟩, fun _ => ⟨frame, _, rfl⟩⟩, fun frame' ws' h => ?_,
      fun e ws' => ⟨nofun, ?_⟩⟩
    · cases h
      exact ⟨hbinds, rfl⟩
    · rintro (⟨hne, -⟩ | ⟨-, i, hrefused, -⟩)
      · exact absurd hlength hne
      · exact absurd htaken hrefused.not_taken
  · rw [hrun ws]
    refine ⟨⟨nofun, fun h => absurd h.2 hrefused.not_taken⟩, nofun, fun e' ws' => ⟨fun h => ?_, ?_⟩⟩
    · cases h
      exact .inr ⟨hlength, i, hrefused, rfl⟩
    · rintro (⟨hne, -⟩ | ⟨-, i', hrefused', rfl⟩)
      · exact absurd hlength hne
      · obtain ⟨rfl, rfl⟩ := hrefused.unique hrefused'
        rfl

/-- A notice of two lines, both of the same name, that is shown so many times. -/
def notice : Component where
  name := "Notice"
  params := [⟨"line", .string⟩, ⟨"times", .number⟩, ⟨"line", .number⟩]
  body := []

/-- Two frames. The inner one knows the times; only the outer one knows a guest. -/
def guestFrames : Stack :=
  ⟨[[⟨"times", .number, .number 3⟩], [⟨"guest", .string, .text "Ada"⟩]]⟩

/-- The guest of the outer frame is not seen, so the first line is empty, with a warning. The times
are those of the inner frame, and a text for the last line is the first argument to be refused. With
an argument too few nothing is evaluated, so there is no warning of the guest. If the last line is a
number, all arguments are taken, and the name of the lines stands for the first one. -/
theorem Component.bind_takes_or_refuses_notice :
    (ExceptT.run (notice.bind [.symbol "guest", .symbol "times", .text "x"] guestFrames)).run
        [.unresolved "host"]
      = (.error (.argumentType "Notice" "line" .number .string),
          [.unresolved "host", .unresolved "guest"]) ∧
    (ExceptT.run (notice.bind [.symbol "guest", .textbox "y"] guestFrames)).run
        [.unresolved "host"]
      = (.error (.argumentCount "Notice" 3 2), [.unresolved "host"]) ∧
    ∃ frame : Frame,
      (ExceptT.run (notice.bind [.symbol "guest", .symbol "times", .number 2] guestFrames)).run
          [.unresolved "host"]
        = (.ok frame, [.unresolved "host", .unresolved "guest"]) ∧
      frame.get? "line" = some (.text "") ∧ frame.get? "guest" = none := by
  have hline : Parameter.Takes ⟨"line", .string⟩ guestFrames.innermost (.symbol "guest") :=
    ⟨.text "", rfl, rfl⟩
  have htimes : Parameter.Takes ⟨"times", .number⟩ guestFrames.innermost (.symbol "times") :=
    ⟨.number 3, rfl, rfl⟩
  have hlast : Parameter.Refuses ⟨"line", .number⟩ "Notice" guestFrames.innermost (.text "x")
      (.argumentType "Notice" "line" .number .string) :=
    Parameter.Refuses.mistyped (v := .text "x") rfl (by decide)
  refine ⟨?_, ?_, ?_⟩
  · refine ((notice.bind_takes_or_refuses _ guestFrames _).2.2.2 _ _).mpr
      (.inr ⟨rfl, 2, ⟨⟨_, _, rfl, hlast⟩, ?_⟩, rfl⟩)
    exact List.forall_mem_cons.mpr ⟨hline, List.forall_mem_singleton.mpr htimes⟩
  · exact ((notice.bind_takes_or_refuses _ guestFrames _).2.2.2 _ _).mpr
      (.inl ⟨nofun, rfl, rfl⟩)
  · obtain ⟨-, hiff, hframe, -⟩ := notice.bind_takes_or_refuses
      [.symbol "guest", .symbol "times", .number 2] guestFrames [.unresolved "host"]
    obtain ⟨frame, ws', hrun⟩ := hiff.mpr ⟨rfl, List.forall_mem_cons.mpr ⟨hline,
      List.forall_mem_cons.mpr ⟨htimes, List.forall_mem_singleton.mpr ⟨.number 2, rfl, rfl⟩⟩⟩⟩
    obtain ⟨hbinds, rfl⟩ := hframe frame ws' hrun
    obtain ⟨v, hv, hget⟩ := hbinds.first 0 _ _ rfl (fun _ => nofun)
    cases hv
    exact ⟨frame, hrun, hget, hbinds.other "guest" (by decide)⟩

end Pagewright
