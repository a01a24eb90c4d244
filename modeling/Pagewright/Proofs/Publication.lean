import Mathlib.Data.List.Nodup
import Pagewright.Proofs.Host.World
import Pagewright.Publication

/-!
# Publishing with failures

A page is published in three steps: directories are made, the files are written under other names,
and they are moved to their own names. Each step may stop half way. What is then left of it follows
from what the step itself has touched: `stage_cases` and `replaceAll_cases` go through the files one
by one, and say how far the step came and what it has cleared away.
-/

namespace Pagewright

open FileTree FilePath World

namespace Publication

open Logging

/-! ## Names -/

/-- The name that a file is written under at first has dots around it. -/
theorem toList_stagingName (name : String) :
    (stagingName name).toList = '.' :: name.toList ++ ['.', 't', 'm', 'p'] := by
  show ("." ++ name ++ ".tmp").toList = _
  rw [String.toList_append, String.toList_append]
  rfl

theorem isFileName_stagingName {name : String} (h : IsFileName name) :
    IsFileName (stagingName name) := by
  refine ⟨fun hempty => ?_, ?_⟩
  · have hlist := toList_stagingName name
    rw [hempty] at hlist
    cases hlist
  · rw [toList_stagingName]
    simpa using h.2

theorem stagingName_injective : Function.Injective stagingName := by
  intro name name' h
  have hlist := congrArg String.toList h
  rw [toList_stagingName, toList_stagingName] at hlist
  exact String.toList_inj.mp (List.append_cancel_right (List.cons.inj hlist).2)

theorem ne_stagingName (name : String) : name ≠ stagingName name := by
  intro h
  have hlength := congrArg List.length ((congrArg String.toList h).trans (toList_stagingName name))
  simp only [List.length_append, List.length_cons, List.length_nil] at hlength
  omega

/-- The names are different file names, and none of them is what another one is written under. A job
by itself may have any names, but one that is made from accepted settings has file names
(`isFileName_of_error?`). -/
structure NamesApart (names : List String) : Prop where
  fileNames : ∀ name ∈ names, IsFileName name
  distinct : names.Nodup
  unstaged : ∀ name ∈ names, ∀ other ∈ names, name ≠ stagingName other

/-- The names are different, and no name is what a later one is written under: files that are moved
to these names in turn do not get in each other's way. -/
def InOrder (names : List String) : Prop :=
  names.Pairwise fun name later => name ≠ later ∧ name ≠ stagingName later

instance (names : List String) : Decidable (InOrder names) :=
  inferInstanceAs (Decidable (List.Pairwise _ _))

theorem NamesApart.inOrder {names : List String} (h : NamesApart names) : InOrder names :=
  h.distinct.imp_of_mem fun hname hlater hne => ⟨hne, h.unstaged _ hname _ hlater⟩

/-- The places where these files are written at first. -/
def StagingPlaces (w : World) (directory : FilePath) (names : List String) (a : Address) : Prop :=
  ∃ name ∈ names, w.place (directory.join (stagingName name)) = some a

/-! ## Clearing up -/

section Steps

variable {w w' : World} {directory : FilePath} {logger : Logger}

theorem StagingPlaces.of_beside (h : Beside w w') (names : List String) :
    StagingPlaces w' directory names = StagingPlaces w directory names := by
  funext a
  rw [StagingPlaces, StagingPlaces, h.place_eq]

theorem StagingPlaces.mono {names names' : List String} (h : names ⊆ names') {a : Address}
    (ha : StagingPlaces w directory names a) : StagingPlaces w directory names' a := by
  obtain ⟨name, hname, hplace⟩ := ha
  exact ⟨name, h hname, hplace⟩

/-- Different files are not written at the same place. -/
theorem StagingPlaces.mem {names : List String} (hnames : ∀ name ∈ names, IsFileName name)
    {name : String} (hname : IsFileName name) {a : Address}
    (hplace : w.place (directory.join (stagingName name)) = some a)
    (ha : StagingPlaces w directory names a) : name ∈ names := by
  obtain ⟨other, hother, hplace'⟩ := ha
  have hsame := name_eq_of_place? (isFileName_stagingName hname)
    (isFileName_stagingName (hnames other hother)) hplace hplace'
  rwa [stagingName_injective hsame]

/-- One file is removed, whatever is logged about it. -/
theorem run_discard (logger : Logger) (staged : Staged) (rest : List Staged) (w : World) :
    ∃ r w₁ w₂, (Host.remove staged.temporary : StateM World _).run w = (r, w₁) ∧ Unmoved w₁ w₂ ∧
      (discardAll logger (staged :: rest) : Procedure Failure Unit).run.run w
        = (discardAll logger rest : Procedure Failure Unit).run.run w₂ := by
  rcases hremove : (Host.remove staged.temporary : StateM World _).run w with ⟨r, w₁⟩
  have hrun : (Host.remove staged.temporary : Procedure Failure _).run.run w = (.ok r, w₁) :=
    run_lift hremove
  cases r with
  | ok _ =>
    refine ⟨_, w₁, w₁, rfl, .refl w₁, ?_⟩
    exact run_bind_ok ((run_bind_ok hrun).trans rfl)
  | error e =>
    obtain ⟨w₂, hsay, hstill⟩ := run_say (ε := Failure) logger .debug .publication
      s!"removing {staged.temporary}: {e.message}" w₁
    refine ⟨_, w₁, w₂, rfl, hstill, ?_⟩
    exact run_bind_ok ((run_bind_ok hrun).trans hsay)

/-- **Discarding files** clears the places where they were written. -/
theorem discardAll_clears (logger : Logger) (directory : FilePath) {names : List String}
    (hnames : ∀ name ∈ names, IsFileName name)
    (hplan : w.RemovesFiles) :
    ∃ w', (discardAll logger (names.map (Staged.of directory)) : Procedure Failure Unit).run.run w
      = (.ok (), w') ∧ Clears (StagingPlaces w directory names) w w' := by
  induction names generalizing w with
  | nil => exact ⟨w, rfl, .of_unmoved (.refl w), fun a ⟨_, hname, _⟩ => nomatch hname⟩
  | cons name names ih =>
    obtain ⟨hname, hrest⟩ := List.forall_mem_cons.mp hnames
    obtain ⟨r, w₁, w₂, hremove, hstill, hrun⟩ := run_discard logger (Staged.of directory name)
      (names.map (Staged.of directory)) w
    have hclears := (clears_remove hplan (isFileName_stagingName hname) hremove).of_unmoved hstill
    obtain ⟨w', hrun', hclears'⟩ := ih hrest (hplan.of_beside hclears.toBeside)
    refine ⟨w', hrun.trans hrun', (hclears.append hclears').congr fun a => ?_⟩
    rw [StagingPlaces.of_beside hclears.toBeside, StagingPlaces, StagingPlaces]
    simp

/-! ## Writing under other names -/

/-- The file stands where it is written at first. -/
def IsStaged (w : World) (directory : FilePath) (w' : World) (file : String × String) : Prop :=
  ∃ a, w.place (directory.join (stagingName file.1)) = some a ∧
    w'.tree.entryAt a = some (.file file.2)

/-- **Writing files under other names**, one after the other: all of them stand there in the end, or
one could not be written, and all that had been written so far have been cleared away. -/
theorem stage_cases (done : List String) {files : List (String × String)}
    (hdone : ∀ name ∈ done, IsFileName name) (hfiles : ∀ file ∈ files, IsFileName file.1)
    (hplan : w.RemovesFiles) {s : Except Failure (List Staged)}
    (h : (stage logger directory (done.map (Staged.of directory)) files :
      Procedure Failure _).run.run w = (s, w')) :
    (s = .ok ((done ++ files.map Prod.fst).map (Staged.of directory)) ∧
      Touches (StagingPlaces w directory (files.map Prod.fst)) w w' ∧
      (∀ file ∈ files, ∃ a, w.place (directory.join (stagingName file.1)) = some a) ∧
      ((files.map Prod.fst).Nodup → ∀ file ∈ files, IsStaged w directory w' file)) ∨
    ∃ before name text after e, files = before ++ (name, text) :: after ∧
      s = .error (.writing (directory.join name) e) ∧
      Clears (StagingPlaces w directory (done ++ before.map Prod.fst ++ [name])) w w' ∧
      ∃ w₁ w₂, Beside w w₁ ∧
        (World.write (directory.join (stagingName name)) text).run w₁ = (.error e, w₂) := by
  induction files generalizing done w s with
  | nil =>
    cases h
    exact .inl ⟨by simp, .of_unmoved (.refl _), (fun _ h => nomatch h), fun _ _ h => nomatch h⟩
  | cons file files ih =>
    obtain ⟨name, text⟩ := file
    obtain ⟨hname, hrest⟩ := List.forall_mem_cons.mp hfiles
    have hstaging := isFileName_stagingName hname
    rcases hwrite : (World.write (Staged.of directory name).temporary text).run w with ⟨r, w₁⟩
    have hrun : (Host.write (Staged.of directory name).temporary text :
        Procedure Failure _).run.run w = (.ok r, w₁) := run_lift hwrite
    obtain ⟨htouches, htext⟩ := touches_write (getLast?_join directory hstaging) hwrite
    rw [stage, run_bind_ok hrun] at h
    cases r with
    | ok _ =>
      obtain ⟨a, hplace, hentry⟩ := htext rfl
      have hsingle : done.map (Staged.of directory) ++ [Staged.of directory name]
          = (done ++ [name]).map (Staged.of directory) := by simp
      have hdone' : ∀ other ∈ done ++ [name], IsFileName other := by
        simpa [or_imp, forall_and] using ⟨hdone, hname⟩
      rw [hsingle] at h
      obtain ⟨hs, htouches', hplaces, hstaged⟩ |
          ⟨before, other, text', after, e, rfl, hs, hclears, w₂, w₃, hbeside, hwrite'⟩ :=
        ih _ hdone' hrest (hplan.of_beside htouches.toBeside) h
      · rw [StagingPlaces.of_beside htouches.toBeside] at htouches'
        rw [htouches.place_eq] at hplaces
        refine .inl ⟨by simpa using hs, ?_, List.forall_mem_cons.mpr ⟨⟨a, hplace⟩, hplaces⟩, ?_⟩
        · exact (htouches.mono fun b hb => ⟨name, List.mem_cons_self, hb⟩).trans
            (htouches'.mono fun b => StagingPlaces.mono (List.subset_cons_self _ _))
        · intro hdistinct
          obtain ⟨hnotin, hdistinct'⟩ := List.nodup_cons.mp hdistinct
          have hfree : ¬ StagingPlaces w directory (files.map Prod.fst) a :=
            mt (StagingPlaces.mem (by simpa using hrest) hname hplace) hnotin
          refine List.forall_mem_cons.mpr ⟨⟨a, hplace, ?_⟩, fun file hfile => ?_⟩
          · rw [htouches'.outside a hfree, hentry]
          · obtain ⟨b, hb, hentry'⟩ := hstaged hdistinct' file hfile
            exact ⟨b, htouches.place_eq ▸ hb, hentry'⟩
      · rw [StagingPlaces.of_beside htouches.toBeside] at hclears
        refine .inr ⟨(name, text) :: before, other, text', after, e, rfl, hs, ?_, w₂, w₃,
          htouches.toBeside.trans hbeside, hwrite'⟩
        have htouches' : Touches (StagingPlaces w directory
            (done ++ [name] ++ before.map Prod.fst ++ [other])) w w₁ :=
          htouches.mono fun b hb => ⟨name, by simp, hb⟩
        simpa using htouches'.clears hclears
    | error e =>
      obtain ⟨w₂, hdiscard, hclears⟩ := discardAll_clears logger directory hdone
        (hplan.of_beside htouches.toBeside)
      rcases hremove : (Host.remove (Staged.of directory name).temporary : StateM World _).run w₂
        with ⟨r, w₃⟩
      have hclears' := clears_remove
        ((hplan.of_beside htouches.toBeside).of_beside hclears.toBeside) hstaging hremove
      rw [(htouches.toBeside.trans hclears.toBeside).place_eq] at hclears'
      rw [StagingPlaces.of_beside htouches.toBeside] at hclears
      have hthrow : (s, w') = (.error (.writing (directory.join name) e), w₃) := by
        rw [← h, run_bind_ok hdiscard]
        have hrun' : (discard (Host.remove (Staged.of directory name).temporary) :
            Procedure Failure Unit).run.run w₂ = (.ok (), w₃) := by
          show (Except.ok (), ((Host.remove (Staged.of directory name).temporary :
            StateM World _).run w₂).2) = _
          rw [hremove]
        rw [run_bind_ok hrun']
        rfl
      cases hthrow
      refine .inr ⟨[], name, text, files, e, rfl, rfl, ?_, w, w₁, .of_unmoved (.refl w), hwrite⟩
      have hboth : Clears (StagingPlaces w directory (done ++ [name])) w₁ w' := by
        refine (hclears.append hclears').congr fun b => ?_
        simp [StagingPlaces, or_and_right, exists_or]
      have htouches' : Touches (StagingPlaces w directory (done ++ [name])) w w₁ :=
        htouches.mono fun b hb => ⟨name, by simp, hb⟩
      simpa using htouches'.clears hboth

/-! ## Moving to their own names -/

/-- The places where these files go in the end. -/
def OutputPlaces (w : World) (directory : FilePath) (files : List (String × String)) (a : Address) :
    Prop :=
  ∃ file ∈ files, w.place (directory.join file.1) = some a

/-- Some of the files have been moved to their own names, and nothing is left under the other
names unless it has been moved there. -/
structure Replaced (directory : FilePath) (moved files : List (String × String)) (w w' : World) :
    Prop extends Beside w w' where
  outputs : ∀ file ∈ moved, ∃ a, w.place (directory.join file.1) = some a ∧
    w'.tree.entryAt a = some (.file file.2)
  inside : ∀ a, StagingPlaces w directory (files.map Prod.fst) a →
    ¬ OutputPlaces w directory moved a → (w'.tree.entryAt a).bind Entry.text? = none
  outside : ∀ a, ¬ StagingPlaces w directory (files.map Prod.fst) a →
    ¬ OutputPlaces w directory moved a → w'.tree.entryAt a = w.tree.entryAt a

theorem OutputPlaces.of_beside (h : Beside w w') (files : List (String × String)) :
    OutputPlaces w' directory files = OutputPlaces w directory files := by
  funext a
  rw [OutputPlaces, OutputPlaces, h.place_eq]

theorem Replaced.of_clears {files : List (String × String)}
    (h : Clears (StagingPlaces w directory (files.map Prod.fst)) w w') :
    Replaced directory [] files w w' where
  toBeside := h.toBeside
  outputs _ hfile := nomatch hfile
  inside a ha _ := h.inside a ha
  outside a ha _ := h.outside a ha

/-- No later file is written where one goes in the end. -/
theorem not_stagingPlaces {name : String} {names : List String} {a : Address}
    (hname : IsFileName name) (hnames : ∀ other ∈ names, IsFileName other)
    (horder : ∀ later ∈ names, name ≠ stagingName later)
    (hplace : w.place (directory.join name) = some a) : ¬ StagingPlaces w directory names a := by
  rintro ⟨other, hother, hplace'⟩
  exact horder other hother
    (name_eq_of_place? hname (isFileName_stagingName (hnames other hother)) hplace hplace')

/-- One file moved, and then others. -/
theorem Replaced.cons {w₁ : World} {name text : String} {moved files : List (String × String)}
    {a b : Address} (hfiles : ∀ other ∈ name :: files.map Prod.fst, IsFileName other)
    (horder : InOrder (name :: files.map Prod.fst)) (hmoved : moved ⊆ files)
    (hplace : w.place (directory.join (stagingName name)) = some a)
    (htarget : w.place (directory.join name) = some b) (hbeside : Beside w w₁)
    (hentry : w₁.tree.entryAt
      = Function.update (Function.update w.tree.entryAt a none) b (some (.file text)))
    (h : Replaced directory moved files w₁ w') :
    Replaced directory ((name, text) :: moved) ((name, text) :: files) w w' := by
  obtain ⟨hname, hrest⟩ := List.forall_mem_cons.mp hfiles
  have hlater := (List.pairwise_cons.mp horder).1
  have hnotin : name ∉ files.map Prod.fst := fun hmem => (hlater name hmem).1 rfl
  have hfreeA : ¬ StagingPlaces w directory (files.map Prod.fst) a :=
    mt (StagingPlaces.mem hrest hname hplace) hnotin
  have hfreeB : ¬ StagingPlaces w directory (files.map Prod.fst) b :=
    not_stagingPlaces hname hrest (fun other hother => (hlater other hother).2) htarget
  have houtputB : ¬ OutputPlaces w directory moved b := by
    rintro ⟨file, hfile, hplace'⟩
    have hmem : file.1 ∈ files.map Prod.fst := List.mem_map_of_mem (hmoved hfile)
    exact hnotin (name_eq_of_place? hname (hrest _ hmem) htarget hplace' ▸ hmem)
  have hab : a ≠ b := by
    rintro rfl
    exact ne_stagingName name
      (name_eq_of_place? hname (isFileName_stagingName hname) htarget hplace)
  have houtside := h.outside
  have hinside := h.inside
  rw [StagingPlaces.of_beside hbeside, OutputPlaces.of_beside hbeside] at houtside hinside
  have hcons {c : Address} : OutputPlaces w directory moved c →
      OutputPlaces w directory ((name, text) :: moved) c :=
    fun ⟨f, hf, hc⟩ => ⟨f, List.mem_cons_of_mem _ hf, hc⟩
  refine ⟨hbeside.trans h.toBeside, ?_, ?_, ?_⟩
  · refine List.forall_mem_cons.mpr ⟨⟨b, htarget, ?_⟩, fun file hfile => ?_⟩
    · rw [houtside b hfreeB houtputB, hentry, Function.update_self]
    · rw [← hbeside.place_eq]
      exact h.outputs file hfile
  · rintro c ⟨other, hother, hplace'⟩ houtputs
    obtain rfl | hother := List.mem_cons.mp hother
    · cases Option.some.inj (hplace.symm.trans hplace')
      rw [houtside a hfreeA (mt hcons houtputs), hentry, Function.update_of_ne hab,
        Function.update_self]
      rfl
    · exact hinside c ⟨other, hother, hplace'⟩ (mt hcons houtputs)
  · intro c hstagingPlaces houtputs
    have hca : c ≠ a := by
      rintro rfl
      exact hstagingPlaces ⟨name, List.mem_cons_self, hplace⟩
    have hcb : c ≠ b := by
      rintro rfl
      exact houtputs ⟨(name, text), List.mem_cons_self, htarget⟩
    rw [houtside c (mt (StagingPlaces.mono (List.subset_cons_self _ _)) hstagingPlaces)
      (mt hcons houtputs), hentry, Function.update_of_ne hcb, Function.update_of_ne hca]

/-- One move, before others: if it succeeds the others follow, and if not everything that is left is
cleared away. -/
theorem exists_of_run_replaceAll {staged : Staged} {rest : List Staged} {s : Except Failure Unit}
    (h : (replaceAll logger (staged :: rest) : Procedure Failure _).run.run w = (s, w')) :
    ∃ r w₁, (Host.rename staged.temporary staged.final : StateM World _).run w = (r, w₁) ∧
      (r = .ok () → ∃ w₂, Unmoved w₁ w₂ ∧
        (replaceAll logger rest : Procedure Failure _).run.run w₂ = (s, w')) ∧
      ∀ e, r = .error e → (do
        discardAll logger (staged :: rest)
        throw (.replacing staged.final e) : Procedure Failure Unit).run.run w₁ = (s, w') := by
  rcases hrename : (Host.rename staged.temporary staged.final : StateM World _).run w with ⟨r, w₁⟩
  have hrun : (Host.rename staged.temporary staged.final : Procedure Failure _).run.run w
      = (.ok r, w₁) := run_lift hrename
  rw [replaceAll, run_bind_ok hrun] at h
  refine ⟨r, w₁, rfl, ?_, ?_⟩
  · rintro rfl
    obtain ⟨w₂, hsay, hstill⟩ := run_say (ε := Failure) logger .debug .publication
      s!"wrote {staged.final}" w₁
    rw [run_bind_ok hsay] at h
    exact ⟨w₂, hstill, h⟩
  · rintro e rfl
    exact h

/-- **Moving files to their own names**, one after the other: either all of them are moved, or one
could not be moved, and it and the files after it have been cleared away. -/
theorem replaceAll_cases {files : List (String × String)}
    (hfiles : ∀ name ∈ files.map Prod.fst, IsFileName name) (horder : InOrder (files.map Prod.fst))
    (hplan : w.RemovesFiles) (hstaged : ∀ file ∈ files, IsStaged w directory w file)
    {s : Except Failure Unit}
    (h : (replaceAll logger ((files.map Prod.fst).map (Staged.of directory)) :
      Procedure Failure _).run.run w = (s, w')) :
    (s = .ok () ∧ Replaced directory files files w w') ∨
    ∃ before name text after e, files = before ++ (name, text) :: after ∧
      s = .error (.replacing (directory.join name) e) ∧ Replaced directory before files w w' ∧
      ∃ w₁ w₂, Beside w w₁ ∧ IsStaged w₁ directory w₁ (name, text) ∧
        (Host.rename (directory.join (stagingName name)) (directory.join name) :
          StateM World _).run w₁ = (.error e, w₂) := by
  induction files generalizing w s with
  | nil =>
    cases h
    exact .inl ⟨rfl, .of_clears ⟨.of_unmoved (.refl _), fun _ ⟨_, hname, _⟩ => nomatch hname⟩⟩
  | cons file files ih =>
    obtain ⟨name, text⟩ := file
    obtain ⟨⟨a, hplace, hentry⟩, hstaged'⟩ := List.forall_mem_cons.mp hstaged
    obtain ⟨hname, hrest⟩ := List.forall_mem_cons.mp hfiles
    obtain ⟨hlater, horder'⟩ := List.pairwise_cons.mp horder
    have hne : w.place (directory.join name) ≠ some a := fun hplace' => ne_stagingName name
      (name_eq_of_place? hname (isFileName_stagingName hname) hplace' hplace)
    obtain ⟨r, w₁, hrename, hmoved, hfailed⟩ := exists_of_run_replaceAll h
    obtain ⟨e, rfl, rfl⟩ | ⟨b, rfl, htarget, hbeside, hentry'⟩ :=
      rename_cases hplace hentry hne hrename
    · obtain ⟨w₂, hdiscard, hclears⟩ := discardAll_clears (w := w.counted) logger directory hfiles
        hplan
      cases (hfailed e rfl).symm.trans (run_bind_ok hdiscard)
      exact .inr ⟨[], name, text, files, e, rfl, rfl,
        .of_clears ((Touches.of_unmoved (unmoved_counted w)).clears hclears), w, w.counted,
        .of_unmoved (.refl w), ⟨a, hplace, hentry⟩, hrename⟩
    · obtain ⟨w₂, hstill, h⟩ := hmoved rfl
      replace hbeside : Beside w w₂ := hbeside.trans (.of_unmoved hstill)
      rw [← hstill.tree] at hentry'
      have hstaged₂ : ∀ file ∈ files, IsStaged w₂ directory w₂ file := by
        intro file hfile
        obtain ⟨c, hc, hentryc⟩ := hstaged' file hfile
        have hmem : file.1 ∈ files.map Prod.fst := List.mem_map_of_mem hfile
        have hcb : c ≠ b := by
          rintro rfl
          exact not_stagingPlaces hname hrest (fun other hother => (hlater other hother).2) htarget
            ⟨file.1, hmem, hc⟩
        have hca : c ≠ a := by
          rintro rfl
          exact (hlater name (StagingPlaces.mem hrest hname hplace ⟨file.1, hmem, hc⟩)).1 rfl
        refine ⟨c, hbeside.place_eq ▸ hc, ?_⟩
        rw [hentry', Function.update_of_ne hcb, Function.update_of_ne hca, hentryc]
      obtain ⟨hs, hreplaced⟩ |
          ⟨before, other, text', after, e, rfl, hs, hreplaced, w₃, w₄, hbeside', hfailed⟩ :=
        ih hrest horder' (hplan.of_beside hbeside) hstaged₂ h
      · exact .inl ⟨hs, hreplaced.cons hfiles horder (List.Subset.refl _) hplace htarget hbeside
          hentry'⟩
      · refine .inr ⟨(name, text) :: before, other, text', after, e, rfl, hs, ?_, w₃, w₄,
          hbeside.trans hbeside', hfailed⟩
        exact hreplaced.cons hfiles horder (List.subset_append_left _ _) hplace htarget hbeside
          hentry'

/-! ## The whole job -/

theorem Replaced.after_touches {w₁ : World} {moved files : List (String × String)}
    (ht : Touches (StagingPlaces w directory (files.map Prod.fst)) w w₁)
    (h : Replaced directory moved files w₁ w') : Replaced directory moved files w w' := by
  have hinside := h.inside
  have houtside := h.outside
  rw [StagingPlaces.of_beside ht.toBeside, OutputPlaces.of_beside ht.toBeside] at hinside houtside
  exact ⟨ht.toBeside.trans h.toBeside, ht.place_eq ▸ h.outputs, hinside,
    fun a ha houtputs => (houtside a ha houtputs).trans (ht.outside a ha)⟩

/-- **Writing the files of a page** to a directory. -/
theorem writeAll_cases {files : List (String × String)}
    (hfiles : ∀ name ∈ files.map Prod.fst, IsFileName name) (horder : InOrder (files.map Prod.fst))
    (hplan : w.RemovesFiles) {s : Except Failure Unit}
    (h : (writeAll logger directory files : Procedure Failure _).run.run w = (s, w')) :
    (s = .ok () ∧ Replaced directory files files w w') ∨
    ∃ before name text after e w₁ w₂, files = before ++ (name, text) :: after ∧ Beside w w₁ ∧
      (s = .error (.writing (directory.join name) e) ∧
          Clears (StagingPlaces w directory (before.map Prod.fst ++ [name])) w w' ∧
          (World.write (directory.join (stagingName name)) text).run w₁ = (.error e, w₂) ∨
        s = .error (.replacing (directory.join name) e) ∧
          Replaced directory before files w w' ∧ IsStaged w₁ directory w₁ (name, text) ∧
          (Host.rename (directory.join (stagingName name)) (directory.join name) :
            StateM World _).run w₁ = (.error e, w₂)) := by
  have hfiles' : ∀ file ∈ files, IsFileName file.1 := by simpa using hfiles
  have hdistinct : (files.map Prod.fst).Nodup := horder.imp And.left
  obtain ⟨staged, w₁, hstage, h⟩ | ⟨failure, hstage, rfl⟩ := exists_of_run_bind h
  · obtain ⟨hs, htouches, -, hstaged⟩ | ⟨_, _, _, _, _, _, hs, _⟩ :=
      stage_cases [] (fun _ h => nomatch h) hfiles' hplan hstage
    · cases hs
      have hstaged₁ : ∀ file ∈ files, IsStaged w₁ directory w₁ file := by
        intro file hfile
        obtain ⟨a, ha, hentry⟩ := hstaged hdistinct file hfile
        exact ⟨a, htouches.place_eq ▸ ha, hentry⟩
      obtain ⟨rfl, hreplaced⟩ | ⟨before, name, text, after, e, hsplit, rfl, hreplaced, w₂, w₃,
          hbeside, hfailed⟩ :=
        replaceAll_cases hfiles horder (hplan.of_beside htouches.toBeside) hstaged₁ h
      · exact .inl ⟨rfl, hreplaced.after_touches htouches⟩
      · exact .inr ⟨before, name, text, after, e, w₂, w₃, hsplit, htouches.toBeside.trans hbeside,
          .inr ⟨rfl, hreplaced.after_touches htouches, hfailed⟩⟩
    · cases hs
  · obtain ⟨hs, -, -⟩ | ⟨before, name, text, after, e, hsplit, hs, hclears, w₁, w₂, hbeside,
        hfailed⟩ :=
      stage_cases [] (fun _ h => nomatch h) hfiles' hplan hstage
    · cases hs
    · cases hs
      exact .inr ⟨before, name, text, after, e, w₁, w₂, hsplit, hbeside,
        .inl ⟨rfl, by simpa using hclears, hfailed⟩⟩

/-- The failure comes before anything is written. -/
def IsEarly : Failure → Prop
  | .opening .. | .loading .. | .readingStylesheet .. | .parsingStylesheet .. | .rejected ..
  | .generating .. => True
  | _ => False

theorem still_loadDocument (path : FilePath) :
    Still IsEarly (loadDocument path : Procedure Failure _) := by
  refine (Still.openFile path).bind fun r => ?_
  cases r with
  | error e => exact .throw trivial
  | ok source =>
    dsimp only
    split
    · exact .pure _
    · exact .throw trivial

theorem still_loadStylesheet (path : Option FilePath) :
    Still IsEarly (loadStylesheet path : Procedure Failure _) := by
  cases path with
  | none => exact .pure _
  | some path =>
    refine (Still.readText path).bind fun r => ?_
    cases r with
    | error e => exact .throw trivial
    | ok source =>
      dsimp only
      split
      · exact .pure _
      · exact .throw trivial

/-- **Before the files of a job are written**, none is touched. -/
theorem still_prepare (logger : Logger) (job : Job) :
    Still IsEarly (prepare logger job : Procedure Failure _) := by
  refine (still_loadDocument _).bind fun doc => (still_loadStylesheet _).bind fun base => ?_
  refine (Still.forM (fun _ => Still.log _ _) _).bind fun _ => ?_
  generalize doc.generate base.source job.pageOptions = generated
  obtain ⟨result, run⟩ := generated
  dsimp only
  split
  · exact fun w => ⟨_, w, rfl, .refl w, fun e h => Except.error.inj h ▸ trivial⟩
  · refine .bind (.forM (fun _ => .log _ _) _) fun _ => ?_
    cases result with
    | error e => exact .throw trivial
    | ok artifacts => exact .bind (.forM (fun _ => .log _ _) _) fun _ => .pure _

/-- Making the directory of a page. -/
theorem run_makeDirectories (path : FilePath) (w : World) :
    ∃ r w', (Host.makeDirectories path : Procedure Failure _).run.run w = (.ok r, w') ∧
      Grows path.ancestors w w' ∧
      (r = .ok () → path = "" ∨ ∃ a, w'.tree.Leads w'.current path a) := by
  rcases hrun : (Host.makeDirectories path : Procedure Failure _).run.run w with ⟨s, w'⟩
  obtain ⟨hgrows, r, rfl, hleads⟩ := makeFirst_cases hrun
  exact ⟨r, w', rfl, hgrows, fun hr => hleads hr path rfl⟩

end Steps

end Publication

/-! ## Failures -/

/-- The files of a job, in the order in which they are written. -/
def Job.files (job : Job) (artifacts : Artifacts) : List (String × String) :=
  [(job.html, artifacts.html), (job.stylesheet, artifacts.css), (job.script, artifacts.js)]

/-- The names of the files of a job. -/
def Job.names (job : Job) : List String :=
  [job.html, job.stylesheet, job.script]

theorem Job.map_files (job : Job) (artifacts : Artifacts) :
    (job.files artifacts).map Prod.fst = job.names := rfl

theorem Job.mem_names {job : Job} {artifacts : Artifacts} {file : String × String}
    (h : file ∈ job.files artifacts) : file.1 ∈ job.names := by
  rw [← job.map_files artifacts]
  exact List.mem_map_of_mem h

theorem Job.exists_of_mem_names {job : Job} (artifacts : Artifacts) {name : String}
    (h : name ∈ job.names) : ∃ file ∈ job.files artifacts, file.1 = name := by
  rw [← job.map_files artifacts] at h
  exact List.mem_map.mp h

namespace World

/-- The text of the file that a path leads to. -/
def textAt (w : World) (path : FilePath) : Option String :=
  w.tree.textAt w.current path

/-- Nothing is different in the second world but that some of these directories have been made, and
what is at the places of these files. -/
def DiffersAt (w w' : World) (directories files : List FilePath) : Prop :=
  ∀ a, w'.tree.entryAt a = w.tree.entryAt a ∨
    (w.tree.entryAt a = none ∧ w'.tree.entryAt a = some .directory ∧
      ∃ path ∈ directories, w'.place path = some a) ∨
    ∃ path ∈ files, w'.place path = some a

/-- The file that the path leads to now has the text it had before. -/
def KeepsText (w w' : World) (path : FilePath) : Prop :=
  ∀ a, w'.place path = some a →
    (w'.tree.entryAt a).bind Entry.text? = (w.tree.entryAt a).bind Entry.text?

section Differences

variable {w w₁ w' : World} {directories files : List FilePath}

/-- Directories are made first, and then files are changed. -/
theorem DiffersAt.of_grows (hgrows : Grows directories w w₁) (hbeside : Beside w₁ w')
    (h : ∀ a, (∀ path ∈ files, w₁.place path ≠ some a) →
      w'.tree.entryAt a = w₁.tree.entryAt a) :
    w.DiffersAt w' directories files := by
  intro a
  rw [hbeside.place_eq]
  by_cases ha : ∃ path ∈ files, w₁.place path = some a
  · exact .inr (.inr ha)
  · rw [h a (by simpa using ha)]
    exact (hgrows.entries a).imp_right .inl

theorem textAt_eq_some {directory : FilePath} {name text : String} {a : Address}
    (hname : IsFileName name) (hplace : w.place (directory.join name) = some a)
    (hentry : w.tree.entryAt a = some (.file text)) :
    w.textAt (directory.join name) = some text := by
  rw [textAt, textAt_join hname, show w.tree.place? _ _ = some a from hplace, Option.bind_some,
    hentry]
  rfl

theorem textAt_eq_none {directory : FilePath} {name : String} (hname : IsFileName name)
    (h : ∀ a, w.place (directory.join name) = some a →
      (w.tree.entryAt a).bind Entry.text? = none) :
    w.textAt (directory.join name) = none := by
  rw [textAt, textAt_join hname]
  cases hplace : w.tree.place? w.current (directory.join name) with
  | none => rfl
  | some a => exact h a hplace

/-- A file keeps its text when directories are made. -/
theorem KeepsText.of_grows {path : FilePath} (hgrows : Grows directories w w₁)
    (hbeside : Beside w₁ w')
    (h : ∀ a, w₁.place path = some a → w'.tree.entryAt a = w₁.tree.entryAt a) :
    w.KeepsText w' path := by
  intro a ha
  rw [hbeside.place_eq] at ha
  rw [h a ha]
  obtain hsame | ⟨hnone, hdir, -⟩ := hgrows.entries a
  · rw [hsame]
  · rw [hnone, hdir]
    rfl

end Differences

end World

namespace Publication

open Logging

/-- What a job leaves behind when it fails: nothing has changed if the failure comes before anything
is written. -/
def Leaves (logger : Logger) (job : Job) (w w' : World) : Failure → Prop
  | .creating _ _ => w.DiffersAt w' job.destination.ancestors []
  | .writing path _ =>
    ∃ artifacts prepared before name text after,
      (prepare logger job : Procedure Failure _).run.run w = (.ok artifacts, prepared) ∧
      job.files artifacts = before ++ (name, text) :: after ∧
      path = job.destination.join name ∧
      w.DiffersAt w' job.destination.ancestors
        ((before.map Prod.fst ++ [name]).map fun n => job.destination.join (stagingName n)) ∧
      ∀ n ∈ before.map Prod.fst ++ [name], w'.textAt (job.destination.join (stagingName n)) = none
  | .replacing path _ =>
    ∃ artifacts prepared before name text after,
      (prepare logger job : Procedure Failure _).run.run w = (.ok artifacts, prepared) ∧
      job.files artifacts = before ++ (name, text) :: after ∧
      path = job.destination.join name ∧
      (∀ file ∈ before, w'.textAt (job.destination.join file.1) = some file.2) ∧
      (∀ file ∈ (name, text) :: after, w.KeepsText w' (job.destination.join file.1)) ∧
      (∀ n ∈ job.names, w'.textAt (job.destination.join (stagingName n)) = none) ∧
      w.DiffersAt w' job.destination.ancestors
        (job.names.map (fun n => job.destination.join (stagingName n)) ++
          before.map fun file => job.destination.join file.1)
  | _ => w'.tree = w.tree

theorem leaves_of_isEarly {logger : Logger} {job : Job} {w w' : World} {failure : Failure}
    (h : IsEarly failure) (htree : w'.tree = w.tree) : Leaves logger job w w' failure := by
  cases failure with
  | creating | writing | replacing => exact h.elim
  | _ => exact htree

section Leavings

variable {logger : Logger} {job : Job} {w prepared w₁ w' : World} {artifacts : Artifacts}
  {before after : List (String × String)} {name text : String} {e : OsError}

theorem names_eq_of_files_eq (hsplit : job.files artifacts = before ++ (name, text) :: after) :
    job.names = before.map Prod.fst ++ name :: after.map Prod.fst := by
  rw [← job.map_files artifacts, hsplit, List.map_append, List.map_cons]

/-- What is left when a file cannot be written. -/
theorem leaves_writing (hnames : NamesApart job.names)
    (hprepare : (prepare logger job : Procedure Failure _).run.run w = (.ok artifacts, prepared))
    (hgrows : Grows job.destination.ancestors w w₁)
    (hsplit : job.files artifacts = before ++ (name, text) :: after)
    (h : Clears (StagingPlaces w₁ job.destination (before.map Prod.fst ++ [name])) w₁ w') :
    Leaves logger job w w' (.writing (job.destination.join name) e) := by
  have hsub : before.map Prod.fst ++ [name] ⊆ job.names := by
    rw [names_eq_of_files_eq hsplit]
    simp
  refine ⟨artifacts, prepared, before, name, text, after, hprepare, hsplit, rfl, ?_, ?_⟩
  · refine .of_grows hgrows h.toBeside fun a ha => h.outside a ?_
    rintro ⟨n, hn, hplace⟩
    exact ha _ (List.mem_map_of_mem hn) hplace
  · intro n hn
    have hfileName := isFileName_stagingName (hnames.fileNames n (hsub hn))
    exact textAt_eq_none hfileName fun a ha => h.inside a ⟨n, hn, h.place_eq ▸ ha⟩

/-- What is left when a file cannot be moved to its own name. -/
theorem leaves_replacing (hnames : NamesApart job.names)
    (hprepare : (prepare logger job : Procedure Failure _).run.run w = (.ok artifacts, prepared))
    (hgrows : Grows job.destination.ancestors w w₁)
    (hsplit : job.files artifacts = before ++ (name, text) :: after)
    (h : Replaced job.destination before (job.files artifacts) w₁ w') :
    Leaves logger job w w' (.replacing (job.destination.join name) e) := by
  refine ⟨artifacts, prepared, before, name, text, after, hprepare, hsplit, rfl, ?_, ?_, ?_, ?_⟩
  · intro file hfile
    obtain ⟨a, ha, hentry⟩ := h.outputs file hfile
    have hfile' := Job.mem_names (hsplit ▸ List.mem_append_left _ hfile)
    exact textAt_eq_some (hnames.fileNames _ hfile') (h.place_eq ▸ ha) hentry
  · intro file hfile
    have hfile' := Job.mem_names (hsplit ▸ List.mem_append_right _ hfile)
    refine .of_grows hgrows h.toBeside fun a ha => h.outside a ?_ ?_
    · exact not_stagingPlaces (hnames.fileNames _ hfile') hnames.fileNames
        (hnames.unstaged _ hfile') ha
    · -- Two files of different names do not stand at the same place.
      rintro ⟨other, hother, hplace⟩
      have hother' := Job.mem_names (hsplit ▸ List.mem_append_left _ hother)
      have hsame := name_eq_of_place? (hnames.fileNames _ hfile') (hnames.fileNames _ hother')
        ha hplace
      have hdistinct := hnames.distinct
      rw [names_eq_of_files_eq hsplit] at hdistinct
      exact List.disjoint_of_nodup_append hdistinct (List.mem_map_of_mem hother)
        (hsame ▸ List.mem_map_of_mem (f := Prod.fst) hfile)
  · intro n hn
    have hfileName := isFileName_stagingName (hnames.fileNames n hn)
    refine textAt_eq_none hfileName fun a ha => h.inside a ⟨n, hn, h.place_eq ▸ ha⟩ ?_
    rintro ⟨other, hother, hplace⟩
    have hother' := Job.mem_names (hsplit ▸ List.mem_append_left _ hother)
    rw [h.place_eq] at ha
    exact hnames.unstaged _ hother' n hn
      (name_eq_of_place? (hnames.fileNames _ hother') hfileName hplace ha)
  · refine .of_grows hgrows h.toBeside fun a ha => h.outside a ?_ ?_
    · rintro ⟨n, hn, hplace⟩
      exact ha _ (List.mem_append_left _ (List.mem_map_of_mem hn)) hplace
    · rintro ⟨other, hother, hplace⟩
      exact ha _ (List.mem_append_right _ (List.mem_map_of_mem hother)) hplace

end Leavings

/-- **A job that fails** leaves the files of an earlier run as they were, but for those that had
been replaced by then. Names of files must not stand in each other's way, and files that are to be
removed must not resist. -/
theorem publish_failure {logger : Logger} {job : Job} {w w' : World} {failure : Failure}
    (hnames : NamesApart job.names) (hplan : w.RemovesFiles)
    (h : (publish logger job : Procedure Failure Unit).run.run w = (.error failure, w')) :
    Leaves logger job w w' failure := by
  obtain ⟨r, w₁, hprepare, hunmoved, hearly⟩ := still_prepare logger job w
  cases r with
  | error e =>
    cases h.symm.trans (run_bind_error hprepare)
    exact leaves_of_isEarly (hearly _ rfl) hunmoved.tree
  | ok artifacts =>
    obtain ⟨r, w₂, hmake, hgrows, -⟩ := run_makeDirectories job.destination w₁
    replace hgrows := (Grows.of_unmoved hunmoved).trans hgrows
    replace h := (run_bind_ok hprepare).symm.trans h
    replace h := (run_bind_ok hmake).symm.trans h
    cases r with
    | error e =>
      cases h
      exact .of_grows hgrows (.of_unmoved (.refl _)) fun a _ => rfl
    | ok _ =>
      have hfiles : ∀ name ∈ (job.files artifacts).map Prod.fst, IsFileName name :=
        hnames.fileNames
      have hplan₂ : w₂.RemovesFiles := hplan.congr hgrows.current hgrows.plan
      have hwrite : (writeAll logger job.destination (job.files artifacts) :
          Procedure Failure _).run.run w₂ = (.error failure, w') := by
        obtain ⟨_, w₃, -, h⟩ | ⟨e, hrun, he⟩ := exists_of_run_bind h
        · obtain ⟨w₄, hsay, -⟩ := run_say (ε := Failure) logger .info .publication
            s!"generated {job.input} into {job.destination}" w₃
          cases h.symm.trans hsay
        · rw [he]
          exact hrun
      obtain ⟨hs, -⟩ | ⟨before, name, text, after, e, _, _, hsplit, -, hcases⟩ :=
        writeAll_cases hfiles hnames.inOrder hplan₂ hwrite
      · cases hs
      · obtain ⟨hs, hclears, -⟩ | ⟨hs, hreplaced, -⟩ := hcases
        · cases hs
          exact leaves_writing hnames hprepare hgrows hsplit hclears
        · cases hs
          exact leaves_replacing hnames hprepare hgrows hsplit hreplaced

/-- The file that could not be replaced, and why. -/
def unreplaced? : Failure → Option (FilePath × OsError)
  | .replacing path e => some (path, e)
  | _ => none

theorem eq_replacing_of_unreplaced? {failure : Failure} {path : FilePath} {e : OsError}
    (h : unreplaced? failure = some (path, e)) : failure = .replacing path e := by
  cases failure with
  | replacing => cases h; rfl
  | _ => cases h

/-- A page with two files of an earlier run, and a directory in the place of the third. -/
def obstructed : World :=
  .new (.directory
    [("page.json", .file "\x7b\x7d"), ("base.css", .file ""),
      ("out", .directory
        [("index.html", .file "old"), (".index.html.tmp", .file "stale"),
          ("script.js", .directory [])])]) [] "/"

/-- The job of that page. -/
def obstructedJob : Job :=
  ⟨"page.json", "out", some "base.css", "index.html", "stylesheet.css", "script.js"⟩

/-- A logger that drops everything. -/
def silent : Logger :=
  ⟨⟨[], none⟩, false⟩

theorem publish_failure_obstructed :
    ∃ w', (publish silent obstructedJob : Procedure Failure Unit).run.run obstructed
        = (.error (.replacing "out/script.js" .isDirectory), w') ∧
      Leaves silent obstructedJob obstructed w' (.replacing "out/script.js" .isDirectory) := by
  have hnames : NamesApart obstructedJob.names :=
    ⟨by decide +kernel, by decide +kernel, by decide +kernel⟩
  rcases hrun : (publish silent obstructedJob : Procedure Failure Unit).run.run obstructed
    with ⟨r, w'⟩
  have hresult : r.mapError unreplaced? = .error (some ("out/script.js", .isDirectory)) := by
    rw [show r = ((publish silent obstructedJob : Procedure Failure Unit).run.run obstructed).1 from
      hrun ▸ rfl]
    decide +kernel
  rcases r with failure | _
  · obtain rfl := eq_replacing_of_unreplaced? (Except.error.inj hresult)
    exact ⟨w', rfl, publish_failure hnames (fun _ _ _ _ _ => rfl) hrun⟩
  · cases hresult

end Publication

end Pagewright
