import Pagewright.Host.World
import Pagewright.Logging.Logger
import Pagewright.Proofs.Host.Paths

/-!
# What a program does to a world

Each operation on files either fails and leaves the tree alone, or changes the tree as
`FileTree` says; the lemmas of the second section say so, whatever the plan of failures is. Writing,
moving and removing files leaves all directories where they are (`World.Beside`), so that every path
keeps its place from the first to the last of them.

A run that clears up after itself is described by the places it has touched (`World.Touches`) and by
those where it has left no file (`World.Clears`).
-/

namespace Pagewright.World

open FileTree FilePath

/-- A program that may stop early. -/
abbrev Procedure (ε α : Type) := ExceptT ε (StateM World) α

/-! ## Runs that touch no file -/

/-- The worlds differ in what has been written to the outputs at most, and in how much has been
done. -/
structure Unmoved (w w' : World) : Prop where
  tree : w'.tree = w.tree
  current : w'.current = w.current
  plan : w'.plan = w.plan

theorem Unmoved.refl (w : World) : Unmoved w w :=
  ⟨rfl, rfl, rfl⟩

theorem Unmoved.trans {w₁ w₂ w₃ : World} (h : Unmoved w₁ w₂) (h' : Unmoved w₂ w₃) :
    Unmoved w₁ w₃ :=
  ⟨h'.tree.trans h.tree, h'.current.trans h.current, h'.plan.trans h.plan⟩

/-- The world after an operation that has changed nothing. -/
def counted (w : World) : World :=
  { w with operations := w.operations + 1 }

theorem unmoved_counted (w : World) : Unmoved w w.counted :=
  ⟨rfl, rfl, rfl⟩

/-- The program touches no file, and stops for one of these reasons only. -/
def Still {ε α : Type} (reasons : ε → Prop) (x : Procedure ε α) : Prop :=
  ∀ w, ∃ r w', x.run.run w = (r, w') ∧ Unmoved w w' ∧ ∀ e, r = .error e → reasons e

namespace Still

variable {ε α β : Type} {reasons : ε → Prop}

theorem pure (a : α) : Still reasons (pure a : Procedure ε α) :=
  fun w => ⟨.ok a, w, rfl, .refl w, fun _ h => nomatch h⟩

theorem throw {e : ε} (he : reasons e) : Still reasons (throw e : Procedure ε α) :=
  fun w => ⟨.error e, w, rfl, .refl w, fun _ h => Except.error.inj h ▸ he⟩

theorem bind {x : Procedure ε α} {f : α → Procedure ε β} (hx : Still reasons x)
    (hf : ∀ a, Still reasons (f a)) : Still reasons (x >>= f) := by
  intro w
  obtain ⟨r, w₁, hrun, hunmoved, hreasons⟩ := hx w
  cases r with
  | error e =>
    refine ⟨.error e, w₁, run_bind_error hrun, hunmoved, fun e' h => ?_⟩
    exact Except.error.inj h ▸ hreasons e rfl
  | ok a =>
    obtain ⟨r, w₂, hrun', hunmoved', hreasons'⟩ := hf a w₁
    exact ⟨r, w₂, (run_bind_ok hrun).trans hrun', hunmoved.trans hunmoved', hreasons'⟩

theorem forM {f : α → Procedure ε PUnit} (hf : ∀ a, Still reasons (f a)) (l : List α) :
    Still reasons (l.forM f) := by
  induction l with
  | nil => exact pure _
  | cons a l ih => exact bind (hf a) fun _ => ih

/-- A program that does not stop early. -/
theorem lift {y : StateM World α} (hy : ∀ w, Unmoved w (y.run w).2) :
    Still reasons (ExceptT.lift y : Procedure ε α) :=
  fun w => ⟨.ok (y.run w).1, (y.run w).2, rfl, hy w, fun _ h => nomatch h⟩

/-- Logging touches no file. -/
theorem log (logger : Logging.Logger) (record : Logging.Record) :
    Still reasons (logger.log record : Procedure ε Unit) := by
  unfold Logging.Logger.log
  split
  · exact lift fun w => ⟨rfl, rfl, rfl⟩
  · exact pure ()

theorem openFile (path : FilePath) : Still reasons (Host.openFile path : Procedure ε _) := by
  refine lift fun w => ?_
  have hrun : ((World.openFile path).run w).2 = w.counted := by
    rcases hplan : w.plan w.operations (.openFile path) w.tree with _ | ⟨e, _ | n⟩ <;>
      rcases hfind : w.tree.find w.current path with e | _ | _ <;>
      simp [World.openFile, begin, hplan, hfind] <;> rfl
  exact hrun ▸ unmoved_counted w

theorem readText (path : FilePath) : Still reasons (Host.readText path : Procedure ε _) := by
  refine lift fun w => ?_
  have hrun : ((World.readText path).run w).2 = w.counted := by
    rcases hplan : w.plan w.operations (.readText path) w.tree with _ | breakdown <;>
      rcases hfind : w.tree.find w.current path with e | _ | _ <;>
      simp [World.readText, begin, hplan, hfind] <;> rfl
  exact hrun ▸ unmoved_counted w

end Still

/-- Logging does not fail. -/
theorem run_say {ε : Type} (logger : Logging.Logger) (level : Logging.Level)
    (part : Logging.Part) (text : String) (w : World) :
    ∃ w₁, (logger.say level part text : Procedure ε Unit).run.run w = (.ok (), w₁) ∧
      Unmoved w w₁ := by
  have hlog : Still (fun _ => False) (logger.say level part text : Procedure ε Unit) :=
    .log logger ⟨level, part.target, text⟩
  obtain ⟨e | _, w₁, hrun, hunmoved, hreasons⟩ := hlog w
  · exact (hreasons e rfl).elim
  · exact ⟨w₁, hrun, hunmoved⟩

/-! ## Operations -/

section Operations

variable {w w' : World}

/-- The world after an operation that has changed the tree. -/
def changed (w : World) (tree : FileTree) : World :=
  { w.counted with tree }

theorem run_change_of_ok {operation : Operation} {tree : FileTree}
    {effect : FileTree → Address → Except OsError FileTree}
    (hplan : w.plan w.operations operation w.tree = none)
    (heffect : effect w.tree w.current = .ok tree) :
    (change operation effect).run w = (.ok (), w.changed tree) := by
  simp [change, begin, hplan, heffect]
  rfl

/-- An operation that fails leaves the tree alone. -/
theorem change_cases {operation : Operation} {r : Except OsError Unit}
    {effect : FileTree → Address → Except OsError FileTree}
    (h : (change operation effect).run w = (r, w')) :
    (∃ e, r = .error e ∧ w' = w.counted) ∨
      ∃ tree, effect w.tree w.current = .ok tree ∧ r = .ok () ∧ w' = w.changed tree := by
  cases hplan : w.plan w.operations operation w.tree with
  | some breakdown =>
    have hrun : (change operation effect).run w = (.error breakdown.error, w.counted) := by
      simp [change, begin, hplan]
      rfl
    cases h.symm.trans hrun
    exact .inl ⟨_, rfl, rfl⟩
  | none =>
    cases heffect : effect w.tree w.current with
    | error e =>
      have hrun : (change operation effect).run w = (.error e, w.counted) := by
        simp [change, begin, hplan, heffect]
        rfl
      cases h.symm.trans hrun
      exact .inl ⟨_, rfl, rfl⟩
    | ok tree =>
      cases h.symm.trans (run_change_of_ok hplan heffect)
      exact .inr ⟨tree, rfl, rfl, rfl⟩

theorem run_write_of_ok {path : FilePath} {text : String} {tree : FileTree}
    (hplan : w.plan w.operations (.write path) w.tree = none)
    (htree : w.tree.write w.current path text = .ok tree) :
    (World.write path text).run w = (.ok (), w.changed tree) := by
  simp [World.write, write.writeNow, begin, hplan, htree]
  rfl

/-- A write that fails leaves the tree alone, or has given the file a text all the same. -/
theorem write_cases {path : FilePath} {text : String} {r : Except OsError Unit}
    (h : (World.write path text).run w = (r, w')) :
    (∃ e, r = .error e ∧ w' = w.counted) ∨
      ∃ written tree, w.tree.write w.current path written = .ok tree ∧ w' = w.changed tree ∧
        (r = .ok () → written = text) := by
  rcases hplan : w.plan w.operations (.write path) w.tree with _ | ⟨e, _ | n⟩
  · cases htree : w.tree.write w.current path text with
    | error e =>
      have hrun : (World.write path text).run w = (.error e, w.counted) := by
        simp [World.write, write.writeNow, begin, hplan, htree]
        rfl
      cases h.symm.trans hrun
      exact .inl ⟨e, rfl, rfl⟩
    | ok tree =>
      cases h.symm.trans (run_write_of_ok hplan htree)
      exact .inr ⟨text, tree, htree, rfl, fun _ => rfl⟩
  · have hrun : (World.write path text).run w = (.error e, w.counted) := by
      simp [World.write, begin, hplan]
      rfl
    cases h.symm.trans hrun
    exact .inl ⟨e, rfl, rfl⟩
  · cases htree : w.tree.write w.current path (String.ofList (text.toList.take n)) with
    | error first =>
      have hrun : (World.write path text).run w = (.error first, w.counted) := by
        simp [World.write, write.writeNow, begin, hplan, htree]
        rfl
      cases h.symm.trans hrun
      exact .inl ⟨first, rfl, rfl⟩
    | ok tree =>
      have hrun : (World.write path text).run w = (.error e, w.changed tree) := by
        simp [World.write, write.writeNow, begin, hplan, htree]
        rfl
      cases h.symm.trans hrun
      exact .inr ⟨_, tree, htree, rfl, fun h => nomatch h⟩

end Operations

/-! ## Changes of files -/

/-- The address of a file of this path. -/
def place (w : World) (path : FilePath) : Option Address :=
  w.tree.place? w.current path

/-- All directories are where they were. -/
structure Beside (w w' : World) : Prop where
  current : w'.current = w.current
  plan : w'.plan = w.plan
  directories : ∀ a, w'.tree.entryAt a = some .directory ↔ w.tree.entryAt a = some .directory

/-- At most these places have changed, and no directories. -/
structure Touches (places : Address → Prop) (w w' : World) : Prop extends Beside w w' where
  outside : ∀ a, ¬ places a → w'.tree.entryAt a = w.tree.entryAt a

/-- At most these places have changed, and no file is left there. -/
structure Clears (places : Address → Prop) (w w' : World) : Prop extends Touches places w w' where
  inside : ∀ a, places a → (w'.tree.entryAt a).bind Entry.text? = none

theorem Beside.place_eq {w w' : World} (h : Beside w w') : w'.place = w.place := by
  funext path
  rw [place, place, h.current, place?_congr h.directories]

section Changes

variable {w w₁ w₂ w₃ w' : World} {p q : Address → Prop}

theorem Beside.of_unmoved (h : Unmoved w w') : Beside w w' where
  current := h.current
  plan := h.plan
  directories a := by rw [h.tree]

theorem Touches.of_unmoved (h : Unmoved w w') : Touches p w w' where
  toBeside := .of_unmoved h
  outside a _ := by rw [h.tree]

theorem Beside.trans (h : Beside w₁ w₂) (h' : Beside w₂ w₃) : Beside w₁ w₃ where
  current := h'.current.trans h.current
  plan := h'.plan.trans h.plan
  directories a := (h'.directories a).trans (h.directories a)

theorem Touches.trans (h : Touches p w₁ w₂) (h' : Touches p w₂ w₃) : Touches p w₁ w₃ where
  toBeside := h.toBeside.trans h'.toBeside
  outside a ha := (h'.outside a ha).trans (h.outside a ha)

theorem Touches.mono (h : Touches p w w') (hpq : ∀ a, p a → q a) : Touches q w w' where
  toBeside := h.toBeside
  outside a ha := h.outside a (mt (hpq a) ha)

/-- What is cleared away in the end may have been touched before. -/
theorem Touches.clears (h : Touches p w₁ w₂) (h' : Clears p w₂ w₃) : Clears p w₁ w₃ where
  toTouches := h.trans h'.toTouches
  inside := h'.inside

theorem Clears.of_unmoved (h : Clears p w w₁) (h' : Unmoved w₁ w') : Clears p w w' where
  toTouches := h.toTouches.trans (.of_unmoved h')
  inside a ha := by
    rw [h'.tree]
    exact h.inside a ha

theorem Clears.congr (h : Clears p w w') (hpq : ∀ a, p a ↔ q a) : Clears q w w' where
  toTouches := h.toTouches.mono fun a => (hpq a).mp
  inside a ha := h.inside a ((hpq a).mpr ha)

/-- Clearing more does not spoil what has been cleared. -/
theorem Clears.append (h : Clears p w₁ w₂) (h' : Clears q w₂ w₃) :
    Clears (fun a => p a ∨ q a) w₁ w₃ where
  toTouches := (h.toTouches.mono fun _ => .inl).trans (h'.toTouches.mono fun _ => .inr)
  inside a ha := by
    by_cases hq : q a
    · exact h'.inside a hq
    · rw [h'.outside a hq]
      exact h.inside a (ha.resolve_right hq)

/-- The tree has changed at one place, which neither was nor is a directory. -/
theorem Touches.of_update {a : Address} {tree : FileTree} {entry : Option Entry}
    (htree : tree.entryAt = Function.update w.tree.entryAt a entry)
    (hold : w.tree.entryAt a ≠ some .directory) (hnew : entry ≠ some .directory) :
    Touches (· = a) w (w.changed tree) where
  current := rfl
  plan := rfl
  directories b := by
    show tree.entryAt b = _ ↔ _
    rw [htree]
    by_cases hb : b = a
    · rw [hb, Function.update_self]
      exact iff_of_false hnew hold
    · rw [Function.update_of_ne hb]
  outside b hb := by
    show tree.entryAt b = _
    rw [htree, Function.update_of_ne hb]

/-- **Writing a file** touches its place, and gives it its text if it succeeds. -/
theorem touches_write {path : FilePath} {text : String} {r : Except OsError Unit}
    (hpath : path.toList.getLast? ≠ some '/')
    (h : (World.write path text).run w = (r, w')) :
    Touches (w.place path = some ·) w w' ∧
      (r = .ok () → ∃ a, w.place path = some a ∧ w'.tree.entryAt a = some (.file text)) := by
  obtain ⟨e, rfl, rfl⟩ | ⟨written, tree, htree, rfl, hwritten⟩ := write_cases h
  · exact ⟨.of_unmoved (unmoved_counted w), fun h => nomatch h⟩
  · obtain ⟨a, hplace, hold, hentry⟩ := entryAt_write hpath htree
    refine ⟨(Touches.of_update hentry hold (by simp)).mono ?_, fun hr => ⟨a, hplace, ?_⟩⟩
    · rintro b rfl
      exact hplace
    · show tree.entryAt a = _
      rw [hentry, Function.update_self, hwritten hr]

/-- No removal of a file is planned to fail. -/
def RemovesFiles (w : World) : Prop :=
  ∀ n tree path text, tree.textAt w.current path = some text → w.plan n (.remove path) tree = none

theorem RemovesFiles.congr (h : w.RemovesFiles) (hcurrent : w'.current = w.current)
    (hplan : w'.plan = w.plan) : w'.RemovesFiles := by
  intro n tree path text htext
  rw [hplan]
  exact h n tree path text (hcurrent ▸ htext)

theorem RemovesFiles.of_beside (h : w.RemovesFiles) (hw : Beside w w') : w'.RemovesFiles :=
  h.congr hw.current hw.plan

/-- **Removing a file** clears its place. -/
theorem clears_remove (hplan : w.RemovesFiles) {directory : FilePath} {name : String}
    (hname : IsFileName name) {r : Except OsError Unit}
    (h : (Host.remove (directory.join name) : StateM World _).run w = (r, w')) :
    Clears (w.place (directory.join name) = some ·) w w' := by
  replace h : (change _ _).run w = (r, w') := h
  by_cases hfile : ∃ a text, w.place (directory.join name) = some a ∧
      w.tree.entryAt a = some (.file text)
  · obtain ⟨a, text, hplace, hfile⟩ := hfile
    have htext : w.tree.textAt w.current (directory.join name) = some text := by
      rw [textAt_join hname, show w.tree.place? _ _ = some a from hplace, Option.bind_some, hfile]
      rfl
    have hremove : w.tree.remove w.current (directory.join name) = .ok (w.tree.set none a) :=
      remove_eq_ok_iff.mpr ⟨a, hplace, ⟨text, hfile⟩, rfl⟩
    cases h.symm.trans (run_change_of_ok (hplan _ _ _ _ htext) hremove)
    obtain ⟨b, hb, -, hentry⟩ := entryAt_remove hremove
    cases Option.some.inj (hplace.symm.trans hb)
    have htouches : Touches (· = a) w (w.changed (w.tree.set none a)) :=
      .of_update hentry (by simp [hfile]) (by simp)
    refine ⟨htouches.mono fun b hb => hb ▸ hplace, fun b hb => ?_⟩
    cases Option.some.inj (hplace.symm.trans hb)
    show ((w.tree.set none a).entryAt a).bind _ = none
    rw [hentry, Function.update_self]
    rfl
  · obtain ⟨e, rfl, rfl⟩ | ⟨tree, htree, -, -⟩ := change_cases h
    · refine ⟨.of_unmoved (unmoved_counted w), fun a ha => ?_⟩
      show (w.tree.entryAt a).bind _ = none
      cases hentry : w.tree.entryAt a with
      | none => rfl
      | some entry =>
        cases entry with
        | directory => rfl
        | file text => exact absurd ⟨a, text, ha, hentry⟩ hfile
    · obtain ⟨a, hplace, ⟨text, hentry⟩, -⟩ := entryAt_remove htree
      exact absurd ⟨a, text, hplace, hentry⟩ hfile

/-- **Moving a file** to another place takes it away from its own, unless the move fails. -/
theorem rename_cases {source target : FilePath} {a : Address} {text : String}
    {r : Except OsError Unit} (hsource : w.place source = some a)
    (hfile : w.tree.entryAt a = some (.file text)) (hne : w.place target ≠ some a)
    (h : (Host.rename source target : StateM World _).run w = (r, w')) :
    (∃ e, r = .error e ∧ w' = w.counted) ∨
      ∃ b, r = .ok () ∧ w.place target = some b ∧ Beside w w' ∧
        w'.tree.entryAt
          = Function.update (Function.update w.tree.entryAt a none) b (some (.file text)) := by
  obtain ⟨e, rfl, rfl⟩ | ⟨tree, htree, rfl, rfl⟩ := change_cases h
  · exact .inl ⟨e, rfl, rfl⟩
  · right
    obtain ⟨-, b, -, -, htarget, -⟩ := exists_of_rename htree
    have hab : a ≠ b := fun hab => hne (hab ▸ htarget)
    obtain ⟨hclear, hentry⟩ := entryAt_rename hsource htarget hab hfile htree
    refine ⟨b, rfl, htarget, ⟨rfl, rfl, fun c => ?_⟩, hentry⟩
    show tree.entryAt c = _ ↔ _
    rw [hentry]
    by_cases hcb : c = b
    · rw [hcb, Function.update_self]
      exact iff_of_false (by simp) hclear
    · rw [Function.update_of_ne hcb]
      by_cases hca : c = a
      · rw [hca, Function.update_self, hfile]
        simp
      · rw [Function.update_of_ne hca]

end Changes

/-! ## Making directories -/

/-- Directories have been made at the places of some of these paths, where nothing was. -/
structure Grows (paths : List FilePath) (w w' : World) : Prop where
  current : w'.current = w.current
  plan : w'.plan = w.plan
  entries : ∀ a, w'.tree.entryAt a = w.tree.entryAt a ∨
    w.tree.entryAt a = none ∧ w'.tree.entryAt a = some .directory ∧
      ∃ path ∈ paths, w'.place path = some a

section Directories

variable {w w₁ w₂ w₃ w' : World} {paths : List FilePath}

theorem Grows.of_unmoved (h : Unmoved w w') : Grows paths w w' where
  current := h.current
  plan := h.plan
  entries a := .inl (by rw [h.tree])

theorem Grows.mono {paths' : List FilePath} (h : Grows paths w w') (hpaths : paths ⊆ paths') :
    Grows paths' w w' where
  current := h.current
  plan := h.plan
  entries a := (h.entries a).imp_right fun ⟨hnone, hdir, path, hpath, hplace⟩ =>
    ⟨hnone, hdir, path, hpaths hpath, hplace⟩

theorem Grows.directory (h : Grows paths w w') {a : Address}
    (ha : w.tree.entryAt a = some .directory) : w'.tree.entryAt a = some .directory := by
  obtain hsame | ⟨-, hdir, -⟩ := h.entries a
  · rw [hsame, ha]
  · exact hdir

theorem Grows.trans (h : Grows paths w₁ w₂) (h' : Grows paths w₂ w₃) : Grows paths w₁ w₃ where
  current := h'.current.trans h.current
  plan := h'.plan.trans h.plan
  entries a := by
    obtain hsame | ⟨hnone, hdir, hplace⟩ := h'.entries a
    · rw [hsame]
      refine (h.entries a).imp_right fun ⟨hnone, hdir, path, hpath, hplace⟩ =>
        ⟨hnone, hdir, path, hpath, ?_⟩
      rw [place, h'.current]
      exact place?_mono (fun _ => h'.directory) hplace
    · obtain hsame' | ⟨-, hdir', -⟩ := h.entries a
      · exact .inr ⟨hsame' ▸ hnone, hdir, hplace⟩
      · rw [hnone] at hdir'
        cases hdir'

/-- Making a directory adds it at the place of its path. -/
theorem makeDirectory_cases {path : FilePath} {r : Except OsError Unit}
    (h : (Host.makeDirectory path : StateM World _).run w = (r, w')) :
    Grows [path] w w' ∧ (r = .ok () → ∃ a, w'.tree.Leads w'.current path a) := by
  obtain ⟨e, rfl, rfl⟩ | ⟨tree, htree, rfl, rfl⟩ := change_cases h
  · exact ⟨.of_unmoved (unmoved_counted w), fun h => nomatch h⟩
  · obtain ⟨a, hplace, hnone, hentry⟩ := entryAt_makeDirectory htree
    have hnew : tree.entryAt a = some .directory := by rw [hentry, Function.update_self]
    have hdirs (b : Address) (hb : w.tree.entryAt b = some .directory) :
        tree.entryAt b = some .directory := by
      rw [hentry, Function.update_of_ne (by rintro rfl; rw [hnone] at hb; cases hb), hb]
    have hplace' : tree.place? w.current path = some a := place?_mono hdirs hplace
    refine ⟨⟨rfl, rfl, fun b => ?_⟩, fun _ => ⟨a, leads_of_place? hplace' hnew⟩⟩
    by_cases hb : b = a
    · exact .inr ⟨hb ▸ hnone, hb ▸ hnew, path, List.mem_singleton_self path, hb ▸ hplace'⟩
    · left
      show tree.entryAt b = _
      rw [hentry, Function.update_of_ne hb]

theorem run_isDirectory (path : FilePath) (w : World) :
    (Host.isDirectory path : StateM World Bool).run w
      = (decide (w.tree.standingAt w.current path = some .directory), w) := by
  refine Prod.ext ?_ rfl
  unfold standingAt
  simp only [Host.isDirectory, StateT.run_bind, StateT.run_get, pure_bind]
  rcases w.tree.find w.current path with e | text | entries <;> rfl

/-- A directory that could not be made counts as made if it is there. -/
theorem run_settled {ε : Type} (path : FilePath) (r : Except OsError Unit) (w : World) :
    ∃ r', (Host.makeFirst.settled path r : Procedure ε _).run.run w = (.ok r', w) ∧
      (r' = .ok () → r = .ok () ∨ ∃ a, w.tree.Leads w.current path a) := by
  cases r with
  | ok _ => exact ⟨.ok (), rfl, fun _ => .inl rfl⟩
  | error e =>
    refine ⟨_, run_bind_ok (run_lift (run_isDirectory path w)), fun h => .inr ?_⟩
    by_cases hdir : w.tree.standingAt w.current path = some .directory
    · exact (standingAt_eq_directory_iff.mp hdir).2.2
    · rw [if_neg (by simpa using hdir)] at h
      cases h

/-- **Making a directory with the directories it stands in.** Nothing is changed but that some of
them are made, and if all goes well the path leads to a directory. -/
theorem makeFirst_cases {ε : Type} {s : Except ε (Except OsError Unit)}
    (h : (Host.makeFirst paths : Procedure ε _).run.run w = (s, w')) :
    Grows paths w w' ∧ ∃ r, s = .ok r ∧
      (r = .ok () → ∀ path ∈ paths.head?, path = "" ∨ ∃ a, w'.tree.Leads w'.current path a) := by
  induction paths generalizing w w' s with
  | nil =>
    cases h
    exact ⟨.of_unmoved (.refl w), _, rfl, fun h => nomatch h⟩
  | cons path parents ih =>
    have hsub : [path] ⊆ path :: parents := by simp
    unfold Host.makeFirst at h
    split at h
    · cases h
      exact ⟨.of_unmoved (.refl w), _, rfl, fun _ _ hpath => .inl (by simp_all)⟩
    · rcases hmake : (Host.makeDirectory path : StateM World _).run w with ⟨r, w₁⟩
      obtain ⟨hgrows, hleads⟩ := makeDirectory_cases hmake
      have hrun : (Host.makeDirectory path : Procedure ε _).run.run w = (.ok r, w₁) :=
        run_lift hmake
      rw [run_bind_ok hrun] at h
      replace hgrows := hgrows.mono hsub
      rcases r with e | _
      · by_cases he : e = .notFound
        · subst he
          obtain ⟨r, w₂, hparents, h⟩ | ⟨e, hparents, -⟩ := exists_of_run_bind h
          · obtain ⟨hgrows', -⟩ := ih hparents
            replace hgrows := hgrows.trans (hgrows'.mono (List.subset_cons_self _ _))
            cases r with
            | error e =>
              cases h
              exact ⟨hgrows, _, rfl, fun h => nomatch h⟩
            | ok _ =>
              rcases hmake' : (Host.makeDirectory path : StateM World _).run w₂ with ⟨r, w₃⟩
              obtain ⟨hgrows'', hleads'⟩ := makeDirectory_cases hmake'
              obtain ⟨r', hsettled, hr'⟩ := run_settled (ε := ε) path r w₃
              cases h.symm.trans ((run_bind_ok (run_lift hmake')).trans hsettled)
              refine ⟨hgrows.trans (hgrows''.mono hsub), r', rfl, fun h _ hpath => .inr ?_⟩
              cases hpath
              exact (hr' h).elim hleads' id
          · obtain ⟨-, r, hr, -⟩ := ih hparents
            cases hr
        · obtain ⟨r', hsettled, hr'⟩ := run_settled (ε := ε) path (.error e) w₁
          have hs : (s, w') = (.ok r', w₁) := by
            rw [← h, ← hsettled]
            cases e with
            | notFound => exact absurd rfl he
            | _ => rfl
          cases hs
          refine ⟨hgrows, r', rfl, fun h _ hpath => .inr ?_⟩
          cases hpath
          exact (hr' h).elim (fun h => nomatch h) id
      · cases h
        refine ⟨hgrows, _, rfl, fun _ _ hpath => .inr ?_⟩
        cases hpath
        exact hleads rfl

end Directories

end Pagewright.World
