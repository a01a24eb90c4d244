import Pagewright.Proofs.Publication

/-!
# When a page is delivered

Nothing goes wrong in a world where no operation is planned to fail, where the directory of the page
can be made and where no directory stands in the way of a file. Whether a job that succeeds there
has left each of its files under its own name depends on the names alone: they must be different, no
name may be what a later file is written under at first, and the system must take the names
(`publish_delivers_iff`). The settings are not checked for the first two.
-/

namespace Pagewright

open FileTree FilePath World

namespace FilePath

/-- What stands before the name in the path of a file does not depend on the name. -/
theorem exists_join_eq (directory : FilePath) :
    ∃ lead : String, ∀ name, IsFileName name → directory.join name = lead ++ name := by
  have hrelative {name : String} (h : IsFileName name) : ¬ isAbsolute name :=
    fun habsolute => h.2 (List.mem_of_head? (of_decide_eq_true habsolute))
  by_cases hempty : directory = ""
  · refine ⟨"", fun name h => ?_⟩
    simp [join, hempty]
  · by_cases hlast : directory.toList.getLast? = some '/'
    · refine ⟨directory, fun name h => ?_⟩
      rw [join, if_neg (by simp [hrelative h, hempty]), if_pos hlast]
    · refine ⟨directory ++ "/", fun name h => ?_⟩
      rw [join, if_neg (by simp [hrelative h, hempty]), if_neg hlast]

end FilePath

namespace Publication

open Logging

/-! ## Where the files go -/

/-- The system takes the name that the file is written under at first. -/
def Takes (directory : FilePath) (name : String) : Prop :=
  Fits (directory.join (stagingName name)) ∧ (stagingName name).utf8ByteSize ≤ longestName

instance (directory : FilePath) (name : String) : Decidable (Takes directory name) :=
  inferInstanceAs (Decidable (_ ∧ _))

/-- A file has room under its own name if it has under the other. -/
theorem Takes.own {directory : FilePath} {name : String} (h : Takes directory name)
    (hname : IsFileName name) :
    Fits (directory.join name) ∧ name.utf8ByteSize ≤ longestName := by
  obtain ⟨⟨hnul, hsize⟩, hlongest⟩ := h
  obtain ⟨lead, hlead⟩ := exists_join_eq directory
  rw [hlead _ (isFileName_stagingName hname)] at hnul hsize
  rw [hlead _ hname]
  have hbytes : name.utf8ByteSize ≤ (stagingName name).utf8ByteSize := by
    show _ ≤ ("." ++ name ++ ".tmp").utf8ByteSize
    rw [String.utf8ByteSize_append, String.utf8ByteSize_append]
    omega
  rw [String.utf8ByteSize_append] at hsize
  refine ⟨⟨?_, ?_⟩, Nat.le_trans hbytes hlongest⟩
  · rw [String.toList_append, toList_stagingName] at hnul
    rw [String.toList_append]
    simp only [List.mem_append, List.mem_cons, not_or] at hnul ⊢
    exact ⟨hnul.1, hnul.2.1.2⟩
  · rw [String.utf8ByteSize_append]
    omega

section Places

variable {w : World} {directory : FilePath} {name : String} {parent : Address}

/-- A file of a directory that the system takes has its place there. -/
theorem place_join (hleads : w.tree.Leads w.current directory parent) (hname : IsFileName name)
    (hfits : Fits (directory.join name)) (hsize : name.utf8ByteSize ≤ longestName)
    (hclear : w.tree.standingAt w.current (directory.join name) ≠ some .directory) :
    w.place (directory.join name) = some (parent ++ [name]) ∧
      w.tree.entryAt (parent ++ [name]) ≠ some .directory := by
  have hstep {a : Address} (h : w.tree.step parent name = .ok a) :
      w.tree.entryAt a ≠ some .directory := fun hdir =>
    hclear ((standingAt_join_eq_some_iff hname).mpr ⟨hfits, parent, a, hleads, h, hdir⟩)
  have hisName : isName name := by
    by_contra hdots
    obtain ⟨a, ha, hdir⟩ := exists_step_dots hdots hleads.2
    exact hstep ha hdir
  exact ⟨(place?_join_iff hname).mpr ⟨parent, hleads, hfits, hisName, hsize, rfl⟩,
    hstep ((step_eq_ok_iff hisName).mpr ⟨hleads.2, hsize, rfl⟩)⟩

end Places

/-! ## What moving files in turn demands of their names -/

section Moves

variable {w w' : World} {directory : FilePath} {logger : Logger}

/-- No directory stands where one of the files is written at first. -/
def Unblocked (w : World) (directory : FilePath) (names : List String) : Prop :=
  ∀ a, StagingPlaces w directory names a → w.tree.entryAt a ≠ some .directory

theorem Unblocked.of_beside {names names' : List String} (h : Unblocked w directory names)
    (hnames : names' ⊆ names) (hbeside : Beside w w') : Unblocked w' directory names' := by
  intro a ha
  rw [StagingPlaces.of_beside hbeside] at ha
  exact mt (hbeside.directories a).mp (h a (ha.mono hnames))

/-- One file that has been moved to its own name, before others. -/
theorem exists_of_replaceAll_cons {name : String} {names : List String} (hname : IsFileName name)
    (hclear : Unblocked w directory (name :: names))
    (h : (replaceAll logger ((name :: names).map (Staged.of directory)) :
      Procedure Failure _).run.run w = (.ok (), w')) :
    ∃ a b text w₁, w.place (directory.join (stagingName name)) = some a ∧
      w.place (directory.join name) = some b ∧ a ≠ b ∧
      w.tree.entryAt a = some (.file text) ∧ Beside w w₁ ∧
      w₁.tree.entryAt
        = Function.update (Function.update w.tree.entryAt a none) b (some (.file text)) ∧
      (replaceAll logger (names.map (Staged.of directory)) : Procedure Failure _).run.run w₁
        = (.ok (), w') := by
  obtain ⟨r, w₁, hrename, hmoved, hfailed⟩ := exists_of_run_replaceAll h
  obtain ⟨e, rfl, rfl⟩ | ⟨tree, htree, rfl, -⟩ := change_cases hrename
  · obtain ⟨_, _, -, hthrow⟩ := exists_of_run_bind_ok (hfailed e rfl)
    cases hthrow
  · obtain ⟨a, b, node, hplace, htarget, hnode, -⟩ := exists_of_rename htree
    have hab : a ≠ b := by
      rintro rfl
      exact ne_stagingName name
        (name_eq_of_place? hname (isFileName_stagingName hname) htarget hplace)
    obtain ⟨text, hentry⟩ : ∃ text, w.tree.entryAt a = some (.file text) := by
      have hblocked := hclear a ⟨name, List.mem_cons_self, hplace⟩
      unfold entryAt at hblocked ⊢
      rw [hnode] at hblocked ⊢
      cases node with
      | file text => exact ⟨text, rfl⟩
      | directory entries => exact absurd rfl hblocked
    have hne : w.place (directory.join name) ≠ some a :=
      fun hplace' => hab (Option.some.inj (hplace'.symm.trans htarget))
    obtain ⟨e, he, -⟩ | ⟨b', -, htarget', hbeside, hentry'⟩ :=
      rename_cases hplace hentry hne hrename
    · cases he
    · cases Option.some.inj (htarget.symm.trans htarget')
      obtain ⟨w₂, hstill, h⟩ := hmoved rfl
      exact ⟨a, b, text, w₂, hplace, htarget, hab, hentry, hbeside.trans (.of_unmoved hstill),
        hstill.tree ▸ hentry', h⟩

theorem beside_of_replaceAll {names : List String} (hnames : ∀ name ∈ names, IsFileName name)
    (hclear : Unblocked w directory names)
    (h : (replaceAll logger (names.map (Staged.of directory)) : Procedure Failure _).run.run w
      = (.ok (), w')) : Beside w w' := by
  induction names generalizing w with
  | nil =>
    cases h
    exact .of_unmoved (.refl _)
  | cons name names ih =>
    obtain ⟨hname, hrest⟩ := List.forall_mem_cons.mp hnames
    obtain ⟨-, -, -, w₁, -, -, -, -, hbeside, -, hnext⟩ :=
      exists_of_replaceAll_cons hname hclear h
    have hclear₁ := hclear.of_beside (List.subset_cons_self _ _) hbeside
    exact hbeside.trans (ih hrest hclear₁ hnext)

/-- A place from which files are moved away is empty in the end, unless a file is moved there. -/
theorem entryAt_of_replaceAll {names : List String} (hnames : ∀ name ∈ names, IsFileName name)
    (hclear : Unblocked w directory names)
    (h : (replaceAll logger (names.map (Staged.of directory)) : Procedure Failure _).run.run w
      = (.ok (), w')) {c : Address}
    (houtputs : ∀ name ∈ names, w.place (directory.join name) ≠ some c)
    (hc : w.tree.entryAt c = none ∨ StagingPlaces w directory names c) :
    w'.tree.entryAt c = none := by
  induction names generalizing w with
  | nil =>
    cases h
    exact hc.resolve_right fun ⟨_, hname, _⟩ => nomatch hname
  | cons name names ih =>
    obtain ⟨hname, hrest⟩ := List.forall_mem_cons.mp hnames
    obtain ⟨hown, houtputs'⟩ := List.forall_mem_cons.mp houtputs
    obtain ⟨a, b, text, w₁, hplace, htarget, hab, -, hbeside, hentry, h⟩ :=
      exists_of_replaceAll_cons hname hclear h
    have hcb : c ≠ b := by
      rintro rfl
      exact hown htarget
    have hclear₁ : Unblocked w₁ directory names :=
      hclear.of_beside (List.subset_cons_self _ _) hbeside
    refine ih hrest hclear₁ h (hbeside.place_eq ▸ houtputs') ?_
    rw [StagingPlaces.of_beside hbeside, hentry, Function.update_of_ne hcb]
    by_cases hca : c = a
    · exact .inl (by rw [hca, Function.update_self])
    · rw [Function.update_of_ne hca]
      refine hc.imp_right fun ⟨other, hother, hplace'⟩ => ?_
      obtain rfl | hother := List.mem_cons.mp hother
      · exact absurd (Option.some.inj (hplace'.symm.trans hplace)) hca
      · exact ⟨other, hother, hplace'⟩

/-- Files that are moved in turn must all be there to begin with. -/
theorem ne_none_of_replaceAll {names : List String} (hnames : ∀ name ∈ names, IsFileName name)
    (hclear : Unblocked w directory names) (horder : InOrder names)
    (h : (replaceAll logger (names.map (Staged.of directory)) : Procedure Failure _).run.run w
      = (.ok (), w')) {c : Address} (hc : StagingPlaces w directory names c) :
    w.tree.entryAt c ≠ none := by
  induction names generalizing w with
  | nil =>
    obtain ⟨_, hname, _⟩ := hc
    cases hname
  | cons name names ih =>
    obtain ⟨hname, hrest⟩ := List.forall_mem_cons.mp hnames
    obtain ⟨hlater, horder'⟩ := List.pairwise_cons.mp horder
    obtain ⟨a, b, text, w₁, hplace, htarget, hab, hfile, hbeside, hentry, h⟩ :=
      exists_of_replaceAll_cons hname hclear h
    by_cases hca : c = a
    · rw [hca, hfile]
      exact Option.some_ne_none _
    · obtain ⟨other, hother, hplace'⟩ := hc
      obtain rfl | hother := List.mem_cons.mp hother
      · exact absurd (Option.some.inj (hplace'.symm.trans hplace)) hca
      · have hc : StagingPlaces w directory names c := ⟨other, hother, hplace'⟩
        have hcb : c ≠ b := by
          rintro rfl
          exact not_stagingPlaces hname hrest (fun other hother => (hlater other hother).2) htarget
            hc
        have hclear₁ : Unblocked w₁ directory names :=
          hclear.of_beside (List.subset_cons_self _ _) hbeside
        rw [← StagingPlaces.of_beside hbeside] at hc
        have hthere := ih hrest hclear₁ horder' h hc
        rwa [hentry, Function.update_of_ne hcb, Function.update_of_ne hca] at hthere

/-- **Files that have all been moved, and are all there in the end**, have names that do not get in
each other's way. -/
theorem inOrder_of_replaceAll {names : List String} (hnames : ∀ name ∈ names, IsFileName name)
    (hclear : Unblocked w directory names)
    (h : (replaceAll logger (names.map (Staged.of directory)) : Procedure Failure _).run.run w
      = (.ok (), w'))
    (hthere : ∀ name ∈ names, ∀ b, w.place (directory.join name) = some b →
      w'.tree.entryAt b ≠ none) : InOrder names := by
  induction names generalizing w with
  | nil => exact .nil
  | cons name names ih =>
    obtain ⟨hname, hrest⟩ := List.forall_mem_cons.mp hnames
    obtain ⟨hown, hthere'⟩ := List.forall_mem_cons.mp hthere
    obtain ⟨a, b, text, w₁, hplace, htarget, hab, -, hbeside, hentry, hnext⟩ :=
      exists_of_replaceAll_cons hname hclear h
    have hclear₁ : Unblocked w₁ directory names :=
      hclear.of_beside (List.subset_cons_self _ _) hbeside
    have horder : InOrder names := ih hrest hclear₁ hnext (hbeside.place_eq ▸ hthere')
    have hdistinct : ∀ later ∈ names, name ≠ later := by
      rintro later hlater rfl
      refine ne_none_of_replaceAll hrest hclear₁ horder hnext (c := a) ⟨name, hlater, ?_⟩ ?_
      · rw [hbeside.place_eq, hplace]
      · rw [hentry, Function.update_of_ne hab, Function.update_self]
    refine List.pairwise_cons.mpr ⟨fun later hlater => ⟨hdistinct later hlater, ?_⟩, horder⟩
    rintro rfl
    refine hown b htarget (entryAt_of_replaceAll hrest hclear₁ hnext ?_ (.inr ⟨later, hlater, ?_⟩))
    · intro other hother hplace'
      rw [hbeside.place_eq] at hplace'
      exact hdistinct other hother (name_eq_of_place? hname (hrest other hother) htarget hplace')
    · rw [hbeside.place_eq, htarget]

end Moves

/-! ## Delivery -/

/-- Nothing stands in the way of a job but the names of its files: its files can be generated, their
directory can be made, no operation is planned to fail, and no directory has one of the names. -/
structure Ready (logger : Logger) (job : Job) (artifacts : Artifacts) (w prepared made : World) :
    Prop where
  untroubled : ∀ n operation tree, w.plan n operation tree = none
  generates : (prepare logger job : Procedure Failure _).run.run w = (.ok artifacts, prepared)
  makes : (Host.makeDirectories job.destination : Procedure Failure _).run.run prepared
    = (.ok (.ok ()), made)
  standing : made.tree.entryAt made.current = some .directory
  clear : ∀ name ∈ job.names,
    made.tree.standingAt made.current (job.destination.join name) ≠ some .directory ∧
      made.tree.standingAt made.current (job.destination.join (stagingName name))
        ≠ some .directory

/-- Each file of the job stands under its own name, and none is left under another name. -/
structure Delivered (job : Job) (artifacts : Artifacts) (w : World) : Prop where
  texts : ∀ file ∈ job.files artifacts, w.textAt (job.destination.join file.1) = some file.2
  cleared : ∀ name ∈ job.names, stagingName name ∉ job.names →
    w.textAt (job.destination.join (stagingName name)) = none

theorem Delivered.page {job : Job} {artifacts : Artifacts} {w : World}
    (h : Delivered job artifacts w) :
    w.textAt (job.destination.join job.html) = some artifacts.html :=
  h.texts (job.html, artifacts.html) List.mem_cons_self

/-- Settings that are accepted give names of files. -/
theorem isFileName_of_error? {settings : Settings} (h : settings.error? = none)
    (input : FilePath) (destination baseCss : Option FilePath) :
    ∀ name ∈ (Job.new input destination baseCss settings).names, IsFileName name := by
  have hname {field name : String} (hno : Settings.nameError? field name = none) :
      IsFileName name := by
    unfold Settings.nameError? at hno
    split at hno
    · cases hno
    · split at hno
      · cases hno
      · rename_i hempty hslash
        refine ⟨by simpa using hempty, fun hmem => hslash ?_⟩
        exact List.any_eq_true.mpr ⟨'/', hmem, rfl⟩
  obtain ⟨hhtml, hstylesheet, hscript, -⟩ :
      Settings.nameError? "output.html" settings.output.html = none ∧
        Settings.nameError? "output.stylesheet" settings.output.stylesheet = none ∧
        Settings.nameError? "output.script" settings.output.script = none ∧
        Settings.levelError? settings.level = none := by
    simpa [Settings.error?, Option.orElse_eq_or] using h
  intro name hmem
  obtain rfl | rfl | rfl : name = settings.output.html ∨ name = settings.output.stylesheet ∨
      name = settings.output.script := by simpa [Job.names, Job.new] using hmem
  · exact hname hhtml
  · exact hname hstylesheet
  · exact hname hscript

section Ready

variable {logger : Logger} {job : Job} {artifacts : Artifacts} {w prepared made w' : World}

theorem Ready.plan (h : Ready logger job artifacts w prepared made) (n : Nat)
    (operation : Operation) (tree : FileTree) : made.plan n operation tree = none := by
  obtain ⟨_, _, hrun, hunmoved, -⟩ := still_prepare logger job w
  cases h.generates.symm.trans hrun
  obtain ⟨_, _, hrun', hgrows, -⟩ := run_makeDirectories job.destination prepared
  cases h.makes.symm.trans hrun'
  rw [hgrows.plan, hunmoved.plan]
  exact h.untroubled n operation tree

/-- The directory of the page is there once it has been made. -/
theorem Ready.leads (h : Ready logger job artifacts w prepared made) :
    ∃ parent, made.tree.Leads made.current job.destination parent := by
  obtain ⟨r, w', hrun, -, hleads⟩ := run_makeDirectories job.destination prepared
  cases h.makes.symm.trans hrun
  obtain hempty | hleads := hleads rfl
  · rw [hempty]
    exact ⟨made.current, rfl, h.standing⟩
  · exact hleads

/-- The job goes on with writing its files. -/
theorem Ready.publish_eq (h : Ready logger job artifacts w prepared made) :
    (publish logger job : Procedure Failure Unit).run.run w
      = (do
          writeAll logger job.destination (job.files artifacts)
          logger.say .info .publication s!"generated {job.input} into {job.destination}" :
        Procedure Failure Unit).run.run made :=
  (run_bind_ok h.generates).trans (run_bind_ok h.makes)

/-- The places of a file of the job that the system takes. -/
theorem Ready.places (h : Ready logger job artifacts w prepared made) {name : String}
    (hmem : name ∈ job.names) (hname : IsFileName name) (htakes : Takes job.destination name) :
    ∃ a b, made.place (job.destination.join (stagingName name)) = some a ∧
      made.place (job.destination.join name) = some b ∧ a ≠ b ∧
      made.tree.entryAt a ≠ some .directory ∧ made.tree.entryAt b ≠ some .directory := by
  obtain ⟨parent, hleads⟩ := h.leads
  obtain ⟨hclear, hclear'⟩ := h.clear name hmem
  obtain ⟨hfits, hsize⟩ := htakes.own hname
  obtain ⟨hplace, hentry⟩ := place_join hleads hname hfits hsize hclear
  obtain ⟨hplace', hentry'⟩ :=
    place_join hleads (isFileName_stagingName hname) htakes.1 htakes.2 hclear'
  refine ⟨_, _, hplace', hplace, fun hsame => ne_stagingName name ?_, hentry', hentry⟩
  simpa using hsame.symm

/-- Nothing fails when the files of a job are written. -/
theorem Ready.writeAll_eq_ok (h : Ready logger job artifacts w prepared made)
    (hnames : ∀ name ∈ job.names, IsFileName name) (horder : InOrder job.names)
    (htakes : ∀ name ∈ job.names, Takes job.destination name) :
    ∃ w', (writeAll logger job.destination (job.files artifacts) :
        Procedure Failure Unit).run.run made = (.ok (), w') ∧
      Replaced job.destination (job.files artifacts) (job.files artifacts) made w' := by
  rcases hrun : (writeAll logger job.destination (job.files artifacts) :
    Procedure Failure Unit).run.run made with ⟨s, w'⟩
  have hplan : made.RemovesFiles := fun n tree path _ _ => h.plan n (.remove path) tree
  have hfiles : ∀ name ∈ (job.files artifacts).map Prod.fst, IsFileName name := hnames
  obtain ⟨rfl, hreplaced⟩ | ⟨before, name, text, after, e, w₁, w₂, hsplit, hbeside, hcases⟩ :=
    writeAll_cases hfiles horder hplan hrun
  · exact ⟨w', rfl, hreplaced⟩
  · have hmem : name ∈ job.names := by
      rw [names_eq_of_files_eq hsplit]
      simp
    obtain ⟨a, b, hplace, htarget, hab, ha, hb⟩ :=
      h.places hmem (hnames name hmem) (htakes name hmem)
    have hstaging := isFileName_stagingName (hnames name hmem)
    have hplan₁ (n : Nat) (operation : Operation) (tree : FileTree) :
        w₁.plan n operation tree = none := by
      rw [hbeside.plan]
      exact h.plan n operation tree
    rw [← hbeside.place_eq] at hplace htarget
    obtain ⟨-, -, hwrite⟩ | ⟨-, -, ⟨a', hplace', hfile⟩, hrename⟩ := hcases
    · have hok : w₁.tree.write w₁.current (job.destination.join (stagingName name)) text = .ok _ :=
        (write_eq_ok_iff (getLast?_join job.destination hstaging)).mpr
          ⟨a, hplace, mt (hbeside.directories a).mp ha, rfl⟩
      cases hwrite.symm.trans (run_write_of_ok (hplan₁ _ _ _) hok)
    · cases Option.some.inj (hplace.symm.trans hplace')
      have hok := rename_file hplace htarget hab hfile (mt (hbeside.directories b).mp hb)
      cases hrename.symm.trans (run_change_of_ok (hplan₁ _ _ _) hok)

theorem Ready.unblocked (h : Ready logger job artifacts w prepared made)
    (hnames : ∀ name ∈ job.names, IsFileName name) :
    Unblocked made job.destination job.names := by
  rintro a ⟨name, hname, hplace⟩ hdir
  have hstaging := isFileName_stagingName (hnames name hname)
  obtain ⟨parent, hleads, hfits, hisName, hsize, ha⟩ := (place?_join_iff hstaging).mp hplace
  refine (h.clear name hname).2 ((standingAt_join_eq_some_iff hstaging).mpr ?_)
  exact ⟨hfits, parent, a, hleads, (step_eq_ok_iff hisName).mpr ⟨hleads.2, hsize, ha⟩, hdir⟩

/-- Names that do not get in each other's way are good enough. -/
theorem Ready.delivers (h : Ready logger job artifacts w prepared made)
    (hnames : ∀ name ∈ job.names, IsFileName name) (horder : InOrder job.names)
    (htakes : ∀ name ∈ job.names, Takes job.destination name) :
    ∃ w', (publish logger job : Procedure Failure Unit).run.run w = (.ok (), w') ∧
      Delivered job artifacts w' := by
  obtain ⟨w₁, hwrite, hreplaced⟩ := h.writeAll_eq_ok hnames horder htakes
  obtain ⟨w', hsay, hstill⟩ := run_say (ε := Failure) logger .info .publication
    s!"generated {job.input} into {job.destination}" w₁
  have hbeside : Beside made w' := hreplaced.toBeside.trans (.of_unmoved hstill)
  refine ⟨w', h.publish_eq.trans ((run_bind_ok hwrite).trans hsay), ?_, ?_⟩
  · intro file hfile
    obtain ⟨a, ha, hentry⟩ := hreplaced.outputs file hfile
    exact textAt_eq_some (hnames _ (Job.mem_names hfile)) (hbeside.place_eq ▸ ha)
      (hstill.tree ▸ hentry)
  · intro name hname hstaged
    have hstaging := isFileName_stagingName (hnames name hname)
    refine textAt_eq_none hstaging fun a ha => ?_
    rw [hbeside.place_eq] at ha
    rw [hstill.tree]
    refine hreplaced.inside a ⟨name, hname, ha⟩ ?_
    rintro ⟨file, hfile, hplace⟩
    have hname := name_eq_of_place? (hnames _ (Job.mem_names hfile)) hstaging hplace ha
    exact hstaged (hname ▸ Job.mem_names hfile)

/-- Files that have been delivered have names that do not get in each other's way. -/
theorem Ready.of_delivered (h : Ready logger job artifacts w prepared made)
    (hnames : ∀ name ∈ job.names, IsFileName name)
    (hrun : (publish logger job : Procedure Failure Unit).run.run w = (.ok (), w'))
    (hdelivered : Delivered job artifacts w') :
    InOrder job.names ∧ ∀ name ∈ job.names, Takes job.destination name := by
  have hplan : made.RemovesFiles := fun n tree path _ _ => h.plan n (.remove path) tree
  have hfiles : ∀ file ∈ job.files artifacts, IsFileName file.1 :=
    fun _ hfile => hnames _ (Job.mem_names hfile)
  obtain ⟨_, w₃, hwrite, hsay⟩ | ⟨_, -, he⟩ := exists_of_run_bind (h.publish_eq.symm.trans hrun)
  · obtain ⟨w₄, hsay', hstill⟩ := run_say (ε := Failure) logger .info .publication
      s!"generated {job.input} into {job.destination}" w₃
    cases hsay.symm.trans hsay'
    obtain ⟨staged, w₁, hstage, hreplace⟩ | ⟨_, -, he⟩ := exists_of_run_bind hwrite
    · obtain ⟨hs, htouches, hplaces, -⟩ | ⟨_, _, _, _, _, _, hs, _⟩ :=
        stage_cases [] (fun _ h => nomatch h) hfiles hplan hstage
      · cases hs
        have hclear := (h.unblocked hnames).of_beside (List.Subset.refl _) htouches.toBeside
        have hbeside : Beside w₁ w' :=
          (beside_of_replaceAll hnames hclear hreplace).trans (.of_unmoved hstill)
        refine ⟨inOrder_of_replaceAll hnames hclear hreplace fun name hname b hb => ?_, ?_⟩
        · obtain ⟨file, hfile, rfl⟩ := Job.exists_of_mem_names artifacts hname
          have htext := hdelivered.texts file hfile
          rw [World.textAt, textAt_join (hnames _ hname)] at htext
          obtain ⟨b', hb', hentry⟩ := Option.bind_eq_some_iff.mp htext
          have hsame : w₁.place (job.destination.join file.1) = some b' := hbeside.place_eq ▸ hb'
          cases Option.some.inj (hb.symm.trans hsame)
          rw [← hstill.tree]
          intro hnone
          rw [hnone] at hentry
          cases hentry
        · intro name hname
          obtain ⟨file, hfile, rfl⟩ := Job.exists_of_mem_names artifacts hname
          obtain ⟨a, ha⟩ := hplaces file hfile
          obtain ⟨_, -, hfits, -, hsize, -⟩ :=
            (place?_join_iff (isFileName_stagingName (hnames _ hname))).mp ha
          exact ⟨hfits, hsize⟩
      · cases hs
    · cases he
  · cases he

end Ready

/-- **A job delivers its files** exactly if their names do not get in each other's way and the
system takes them, given accepted settings and a world in which nothing else can go wrong. -/
theorem publish_delivers_iff {logger : Logger} {settings : Settings} {input : FilePath}
    {destination baseCss : Option FilePath} {artifacts : Artifacts} {w prepared made : World}
    (hsettings : settings.error? = none)
    (hready : Ready logger (.new input destination baseCss settings) artifacts w prepared made) :
    (∃ w', (publish logger (.new input destination baseCss settings) :
          Procedure Failure Unit).run.run w = (.ok (), w') ∧
        Delivered (.new input destination baseCss settings) artifacts w') ↔
      InOrder (Job.new input destination baseCss settings).names ∧
        ∀ name ∈ (Job.new input destination baseCss settings).names,
          Takes (Job.new input destination baseCss settings).destination name := by
  have hnames := isFileName_of_error? hsettings input destination baseCss
  constructor
  · rintro ⟨w', hrun, hdelivered⟩
    exact hready.of_delivered hnames hrun hdelivered
  · rintro ⟨horder, htakes⟩
    exact hready.delivers hnames horder htakes

/-- A world is ready for a job if a trial of the first steps says so. -/
theorem Ready.of_trial (logger : Logger) (job : Job) (w : World) {prepared made : World}
    (huntroubled : ∀ n operation tree, w.plan n operation tree = none)
    (hprepared : ((prepare logger job : Procedure Failure _).run.run w).2 = prepared)
    (hgenerates : ((prepare logger job : Procedure Failure _).run.run w).1.toOption.isSome)
    (hmade : ((Host.makeDirectories job.destination :
      Procedure Failure _).run.run prepared).2 = made)
    (hmakes : ((Host.makeDirectories job.destination :
      Procedure Failure _).run.run prepared).1.toOption = some (.ok ()))
    (hstanding : made.tree.entryAt made.current = some .directory)
    (hclear : ∀ name ∈ job.names,
      made.tree.standingAt made.current (job.destination.join name) ≠ some .directory ∧
        made.tree.standingAt made.current (job.destination.join (stagingName name))
          ≠ some .directory) :
    ∃ artifacts, Ready logger job artifacts w prepared made := by
  rcases hrun : (prepare logger job : Procedure Failure _).run.run w with ⟨_ | artifacts, w₁⟩
  · rw [hrun] at hgenerates
    cases hgenerates
  · rw [hrun] at hprepared
    refine ⟨artifacts, huntroubled, hprepared ▸ hrun, ?_, hstanding, hclear⟩
    exact Prod.ext (toOption_eq_some_iff.mp hmakes) hmade

/-- A document and an empty base stylesheet, and nothing else. -/
def plain : World :=
  .new (.directory [("page.json", .file "\x7b\x7d"), ("base.css", .file "")]) [] "/"

/-- Settings by which the script goes where the page is written at first. -/
def reusing : Settings where
  output := ⟨"index.html", "stylesheet.css", ".index.html.tmp", none⟩
  baseCss := some "base.css"

/-- The script may go where the page is written at first: the page has left by then. -/
theorem publish_delivers_iff_reusing :
    ∃ artifacts w', (publish silent (.new "page.json" (some "out/pages") none reusing) :
        Procedure Failure Unit).run.run plain = (.ok (), w') ∧
      Delivered (.new "page.json" (some "out/pages") none reusing) artifacts w' := by
  obtain ⟨artifacts, hready⟩ := Ready.of_trial silent
    (.new "page.json" (some "out/pages") none reusing) plain (fun _ _ _ => rfl) rfl
    (by decide +kernel) rfl (by decide +kernel) (by decide +kernel) (by decide +kernel)
  exact ⟨artifacts, (publish_delivers_iff (by decide +kernel) hready).mpr
    ⟨by decide +kernel, by decide +kernel⟩⟩

/-- Settings by which the page goes where the stylesheet is written at first. -/
def swapping : Settings where
  output := ⟨".stylesheet.css.tmp", "stylesheet.css", "script.js", none⟩
  baseCss := some "base.css"

/-- **A job that succeeds may have lost its page**: the page has been moved to where the stylesheet
was written at first, and from there to where the stylesheet should be. -/
theorem not_delivered_swapping :
    swapping.error? = none ∧ ∃ artifacts prepared made w',
      Ready silent (.new "page.json" (some "out") none swapping) artifacts plain prepared made ∧
      (publish silent (.new "page.json" (some "out") none swapping) :
        Procedure Failure Unit).run.run plain = (.ok (), w') ∧
      w'.textAt "out/.stylesheet.css.tmp" = none ∧
      w'.textAt "out/stylesheet.css" = some artifacts.html ∧
      ¬ Delivered (.new "page.json" (some "out") none swapping) artifacts w' := by
  refine ⟨by decide +kernel, ?_⟩
  obtain ⟨artifacts, hready⟩ := Ready.of_trial silent
    (.new "page.json" (some "out") none swapping) plain (fun _ _ _ => rfl) rfl
    (by decide +kernel) rfl (by decide +kernel) (by decide +kernel) (by decide +kernel)
  have hlost : ((publish silent (.new "page.json" (some "out") none swapping) :
      Procedure Failure Unit).run.run plain).2.textAt "out/.stylesheet.css.tmp" = none := by
    decide +kernel
  have hswapped : ((publish silent (.new "page.json" (some "out") none swapping) :
      Procedure Failure Unit).run.run plain).2.textAt "out/stylesheet.css"
        = ((prepare silent (.new "page.json" (some "out") none swapping) :
          Procedure Failure Artifacts).run.run plain).1.toOption.map Artifacts.html := by
    decide +kernel
  rw [hready.generates] at hswapped
  refine ⟨artifacts, _, _, _, hready, Prod.ext (toOption_eq_some_iff.mp ?_) rfl, hlost, hswapped,
    fun hdelivered => ?_⟩
  · decide +kernel
  · have hpath : (Job.new "page.json" (some "out") none swapping).destination.join
        (Job.new "page.json" (some "out") none swapping).html = "out/.stylesheet.css.tmp" := by
      decide +kernel
    have hpage := hdelivered.page
    rw [hpath, hlost] at hpage
    cases hpage

end Publication

end Pagewright
