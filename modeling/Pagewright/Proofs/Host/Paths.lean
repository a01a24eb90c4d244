import Mathlib.Data.List.Basic
import Pagewright.Proofs.Host.FileTree

/-!
# Files of a directory

A file of a directory is written as the path of the directory and the name of the file, joined by a
slash. Whatever the path of the directory looks like, the file stands in the directory under its
name (`FileTree.place?_join_iff`), so files of different names stand at different places. The
system may refuse the path as a whole, or the name, because they are too long.
-/

namespace Pagewright

namespace FilePath

/-! ## Names in a path -/

/-- A name that a file of a directory may have: it is not empty, and no slash is in it. -/
def IsFileName (name : String) : Prop :=
  name ≠ "" ∧ '/' ∉ name.toList

instance (name : String) : Decidable (IsFileName name) :=
  inferInstanceAs (Decidable (_ ∧ _))

/-- The pieces of a text between its slashes that are not empty. -/
def namesIn (cs : List Char) : List String :=
  ((Text.splitAt '/' cs).filter (!·.isEmpty)).map String.ofList

theorem namesIn_append_slash (xs ys : List Char) :
    namesIn (xs ++ '/' :: ys) = namesIn xs ++ namesIn ys := by
  rw [namesIn, Text.splitAt_append_cons, List.filter_append, List.map_append]
  rfl

theorem namesIn_fileName {name : String} (h : IsFileName name) : namesIn name.toList = [name] := by
  have hempty : name.toList.isEmpty = false := by simpa using h.1
  rw [namesIn, Text.splitAt_of_not_mem h.2, List.filter_cons_of_pos (by rw [hempty]; rfl)]
  simp

/-- The slash at the start of an absolute path divides nothing. -/
theorem filter_pieces (path : FilePath) :
    (path.pieces.filter (!·.isEmpty)).map String.ofList = namesIn path.toList := by
  unfold pieces
  split
  · rename_i habsolute
    obtain ⟨cs, hcs⟩ := List.head?_eq_some_iff.mp (of_decide_eq_true habsolute)
    rw [hcs, List.tail_cons]
    exact (namesIn_append_slash [] cs).symm
  · rfl

/-- How a path continues that of its directory: nothing stands before the name, or a slash does. -/
theorem toList_join (directory : FilePath) {name : String} (h : IsFileName name) :
    (directory.join name).toList = directory.toList ++ '/' :: name.toList ∧ directory ≠ "" ∨
      (directory.join name).toList = directory.toList ++ name.toList ∧
        (directory = "" ∨ ∃ cs, directory.toList = cs ++ ['/']) := by
  have hrelative : ¬ isAbsolute name := by
    intro habsolute
    exact h.2 (List.mem_of_head? (of_decide_eq_true habsolute))
  unfold join
  by_cases hempty : directory = ""
  · right
    simp [hempty]
  · rw [if_neg (by simp [hrelative, hempty])]
    split
    · rename_i hlast
      obtain ⟨cs, hcs⟩ := List.getLast?_eq_some_iff.mp hlast
      exact .inr ⟨String.toList_append, .inr ⟨cs, hcs⟩⟩
    · left
      simp [hempty]

/-- **The names on the way to a file** are those on the way to its directory, and its own. -/
theorem namesIn_join (directory : FilePath) {name : String} (h : IsFileName name) :
    namesIn (directory.join name).toList = namesIn directory.toList ++ [name] := by
  rw [← namesIn_fileName h]
  obtain ⟨hjoin, -⟩ | ⟨hjoin, hdirectory⟩ := toList_join directory h
  · rw [hjoin, namesIn_append_slash]
  · rw [hjoin]
    obtain rfl | ⟨cs, hcs⟩ := hdirectory
    · rfl
    · rw [hcs, List.append_assoc, List.singleton_append, namesIn_append_slash,
        namesIn_append_slash]
      simp [namesIn, Text.splitAt]

/-- A file has an absolute path if its directory has. -/
theorem isAbsolute_join (directory : FilePath) {name : String} (h : IsFileName name) :
    (directory.join name).isAbsolute = directory.isAbsolute := by
  unfold isAbsolute
  obtain ⟨hjoin, hempty⟩ | ⟨hjoin, rfl | ⟨cs, hcs⟩⟩ := toList_join directory h
  · obtain ⟨c, cs, hcs⟩ : ∃ c cs, directory.toList = c :: cs :=
      List.exists_cons_of_ne_nil (by simpa using hempty)
    rw [hjoin, hcs]
    rfl
  · have hslash : name.toList.head? ≠ some '/' := fun hhead => h.2 (List.mem_of_head? hhead)
    rw [hjoin]
    simpa using hslash
  · rw [hjoin, hcs]
    cases cs <;> rfl

/-- The path of a file does not end in a slash. -/
theorem getLast?_join (directory : FilePath) {name : String} (h : IsFileName name) :
    (directory.join name).toList.getLast? ≠ some '/' := by
  have hslash : name.toList.getLast? ≠ some '/' := fun hlast => h.2 (List.mem_of_getLast? hlast)
  have hne : name.toList ≠ [] := by simpa using h.1
  obtain ⟨hjoin, -⟩ | ⟨hjoin, -⟩ := toList_join directory h
  · rwa [hjoin, List.append_cons, List.getLast?_append_of_ne_nil _ hne]
  · rwa [hjoin, List.getLast?_append_of_ne_nil _ hne]

theorem join_ne_empty (directory : FilePath) {name : String} (h : IsFileName name) :
    directory.join name ≠ "" := by
  intro hempty
  have hnames := namesIn_join directory h
  rw [hempty] at hnames
  exact absurd hnames (by simp [namesIn, Text.splitAt])

end FilePath

namespace FileTree

open FilePath

/-! ## Following the path of a directory -/

/-- The path leads to a directory. -/
def Leads (tree : FileTree) (current : Address) (path : FilePath) (a : Address) : Prop :=
  tree.follow (if path.isAbsolute then [] else current) (namesIn path.toList) = .ok a ∧
    tree.entryAt a = some .directory

theorem Leads.unique {tree : FileTree} {current a b : Address} {path : FilePath}
    (ha : tree.Leads current path a) (hb : tree.Leads current path b) : a = b :=
  Except.ok.inj (ha.1.symm.trans hb.1)

/-- The system takes the path: it is not too long, and no character in it is refused. -/
def Fits (path : FilePath) : Prop :=
  '\x00' ∉ path.toList ∧ path.utf8ByteSize < pathLimit

instance (path : FilePath) : Decidable (Fits path) :=
  inferInstanceAs (Decidable (_ ∧ _))

/-- A path taken apart. -/
theorem route_eq_ok_iff {current : Address} {path : FilePath} {r : Route} :
    route current path = .ok r ↔
      path ≠ "" ∧ Fits path ∧
        r = ⟨if path.isAbsolute then [] else current, (namesIn path.toList).dropLast,
          (namesIn path.toList).getLast?, path.toList.getLast? = some '/'⟩ := by
  have hnul : (path.toList.any (· = '\x00')) = true ↔ '\x00' ∈ path.toList := by simp
  unfold route Fits
  rw [filter_pieces]
  by_cases hmem : '\x00' ∈ path.toList
  · rw [if_pos (hnul.mpr hmem)]
    exact ⟨(fun h => nomatch h), fun h => absurd hmem h.2.1.1⟩
  · rw [if_neg (mt hnul.mp hmem)]
    by_cases hempty : path = ""
    · rw [if_pos (by simpa using hempty)]
      exact ⟨(fun h => nomatch h), fun h => absurd hempty h.1⟩
    · rw [if_neg (by simpa using hempty)]
      by_cases hsize : path.utf8ByteSize < pathLimit
      · rw [if_neg (Nat.not_le_of_gt hsize)]
        exact ⟨fun h => ⟨hempty, ⟨hmem, hsize⟩, (Except.ok.inj h).symm⟩,
          fun h => congrArg _ h.2.2.symm⟩
      · rw [if_pos (Nat.le_of_not_gt hsize)]
        exact ⟨(fun h => nomatch h), fun h => absurd h.2.1.2 hsize⟩

/-- The path of a file of a directory, taken apart. -/
theorem route_join_eq_ok_iff {current : Address} {directory : FilePath} {name : String}
    (h : IsFileName name) {r : Route} :
    route current (directory.join name) = .ok r ↔
      Fits (directory.join name) ∧
        r = ⟨if directory.isAbsolute then [] else current, namesIn directory.toList, some name,
          false⟩ := by
  rw [route_eq_ok_iff, namesIn_join directory h, isAbsolute_join directory h,
    decide_eq_false (getLast?_join directory h), List.dropLast_concat, List.getLast?_concat]
  exact and_iff_right (join_ne_empty directory h)

/-- **A file of a directory** stands in it under its name. -/
theorem place?_join_iff {tree : FileTree} {current a : Address} {directory : FilePath}
    {name : String} (h : IsFileName name) :
    tree.place? current (directory.join name) = some a ↔
      ∃ parent, tree.Leads current directory parent ∧ Fits (directory.join name) ∧ isName name ∧
        name.utf8ByteSize ≤ longestName ∧ a = parent ++ [name] := by
  rw [place?_eq_some_iff]
  constructor
  · rintro ⟨r, parent, last, hr, hf, hdir, hlast, hrest⟩
    obtain ⟨hfits, rfl⟩ := (route_join_eq_ok_iff h).mp hr
    cases hlast
    exact ⟨parent, ⟨hf, hdir⟩, hfits, hrest⟩
  · rintro ⟨parent, ⟨hf, hdir⟩, hfits, hrest⟩
    exact ⟨_, parent, name, (route_join_eq_ok_iff h).mpr ⟨hfits, rfl⟩, hf, hdir, rfl, hrest⟩

/-- Files of one directory that stand at one place have one name. -/
theorem name_eq_of_place? {tree : FileTree} {current a : Address} {directory : FilePath}
    {name name' : String} (hname : IsFileName name) (hname' : IsFileName name')
    (h : tree.place? current (directory.join name) = some a)
    (h' : tree.place? current (directory.join name') = some a) : name = name' := by
  obtain ⟨parent, hleads, -, -, -, ha⟩ := (place?_join_iff hname).mp h
  obtain ⟨parent', hleads', -, -, -, ha'⟩ := (place?_join_iff hname').mp h'
  obtain rfl := hleads.unique hleads'
  simpa using ha.symm.trans ha'

/-! ## What a path leads to -/

/-- What the path leads to. -/
def standingAt (tree : FileTree) (current : Address) (path : FilePath) : Option Entry :=
  (tree.find current path).toOption.map asEntry

/-- The text of the file that the path leads to. -/
def textAt (tree : FileTree) (current : Address) (path : FilePath) : Option String :=
  (tree.standingAt current path).bind Entry.text?

theorem follow_append (tree : FileTree) (a : Address) (xs ys : List String) :
    tree.follow a (xs ++ ys) = tree.follow a xs >>= fun b => tree.follow b ys := by
  induction xs generalizing a with
  | nil => rfl
  | cons x xs ih =>
    rw [List.cons_append, follow, follow, bind_assoc]
    exact bind_congr fun b => ih b

theorem follow_singleton (tree : FileTree) (a : Address) (piece : String) :
    tree.follow a [piece] = tree.step a piece :=
  bind_pure _

theorem dropLast_append_toList_getLast? {α : Type} (l : List α) :
    l.dropLast ++ l.getLast?.toList = l := by
  cases hlast : l.getLast? with
  | none => simp [List.getLast?_eq_none_iff.mp hlast]
  | some a => exact List.dropLast_append_getLast? a hlast

/-- What a path leads to: all its names are followed. After a slash only a directory counts. -/
theorem standingAt_eq_some_iff {tree : FileTree} {current : Address} {path : FilePath}
    {entry : Entry} :
    tree.standingAt current path = some entry ↔
      path ≠ "" ∧ Fits path ∧ ∃ a,
        tree.follow (if path.isAbsolute then [] else current) (namesIn path.toList) = .ok a ∧
          tree.entryAt a = some entry ∧
          (path.toList.getLast? = some '/' → entry = .directory) := by
  simp only [standingAt, Option.map_eq_some_iff, toOption_eq_some_iff, find, bind_eq_ok_iff,
    route_eq_ok_iff]
  constructor
  · rintro ⟨node, ⟨r, ⟨hempty, hfits, rfl⟩, a, hfollow, h⟩, rfl⟩
    rw [dropLast_append_toList_getLast?] at hfollow
    refine ⟨hempty, hfits, a, hfollow, ?_⟩
    unfold entryAt
    revert h
    rcases tree.get? a with _ | text | entries <;> intro h
    · cases h
    · by_cases hslash : path.toList.getLast? = some '/'
      · simp only [hslash, decide_true, if_true] at h
        cases h
      · simp only [hslash, decide_false, if_neg Bool.false_ne_true] at h
        cases h
        exact ⟨rfl, fun h => absurd h hslash⟩
    · cases h
      exact ⟨rfl, fun _ => rfl⟩
  · rintro ⟨hempty, hfits, a, hfollow, hentry, hslash⟩
    obtain ⟨node, hnode, rfl⟩ := Option.map_eq_some_iff.mp hentry
    refine ⟨node, ⟨_, ⟨hempty, hfits, rfl⟩, a, ?_, ?_⟩, rfl⟩
    · rw [dropLast_append_toList_getLast?]
      exact hfollow
    · rw [hnode]
      cases node with
      | file text =>
        have hno : ¬ path.toList.getLast? = some '/' := fun h => nomatch hslash h
        simp only [hno, decide_false, if_neg Bool.false_ne_true]
        rfl
      | directory entries => rfl

/-- A path of a directory leads to it. -/
theorem standingAt_eq_directory_iff {tree : FileTree} {current : Address} {path : FilePath} :
    tree.standingAt current path = some .directory ↔
      path ≠ "" ∧ Fits path ∧ ∃ a, tree.Leads current path a := by
  simp only [standingAt_eq_some_iff, Leads, implies_true, and_true]

/-- A path leads to the directory at its place. -/
theorem leads_of_place? {tree : FileTree} {current a : Address} {path : FilePath}
    (hplace : tree.place? current path = some a) (hdir : tree.entryAt a = some .directory) :
    tree.Leads current path a := by
  obtain ⟨r, parent, name, hr, hfollow, hparent, hlast, hname, hsize, ha⟩ :=
    place?_eq_some_iff.mp hplace
  obtain ⟨-, -, rfl⟩ := route_eq_ok_iff.mp hr
  refine ⟨?_, hdir⟩
  rw [← dropLast_append_toList_getLast? (namesIn path.toList),
    show (namesIn path.toList).getLast? = some name from hlast, Option.toList_some, follow_append,
    show tree.follow _ (namesIn path.toList).dropLast = .ok parent from hfollow]
  exact (follow_singleton tree parent name).trans
    ((step_eq_ok_iff hname).mpr ⟨hparent, hsize, ha⟩)

/-- Dots lead from a directory to a directory. -/
theorem exists_step_dots {tree : FileTree} {a : Address} {name : String} (hname : ¬ isName name)
    (hdir : tree.entryAt a = some .directory) :
    ∃ b, tree.step a name = .ok b ∧ tree.entryAt b = some .directory := by
  unfold step
  rw [asDirectory_eq_ok_iff.mpr hdir]
  by_cases hone : name = "."
  · exact ⟨a, if_pos hone, hdir⟩
  · have htwo : name = ".." := by simpa [isName, hone] using hname
    exact ⟨a.dropLast, (if_neg hone).trans (if_pos htwo), entryAt_dropLast hdir⟩

/-- The path of a file of a directory is followed to the directory, and one step on. -/
theorem standingAt_join_eq_some_iff {tree : FileTree} {current : Address} {directory : FilePath}
    {name : String} (h : IsFileName name) {entry : Entry} :
    tree.standingAt current (directory.join name) = some entry ↔
      Fits (directory.join name) ∧ ∃ parent a, tree.Leads current directory parent ∧
        tree.step parent name = .ok a ∧ tree.entryAt a = some entry := by
  have hslash := getLast?_join directory h
  simp only [standingAt_eq_some_iff, namesIn_join directory h, isAbsolute_join directory h,
    follow_append, follow_singleton, bind_eq_ok_iff, join_ne_empty directory h, hslash, ne_eq,
    not_false_eq_true, true_and, false_imp_iff, and_true, Leads]
  refine and_congr_right' ⟨?_, ?_⟩
  · rintro ⟨a, ⟨parent, hfollow, hstep⟩, hentry⟩
    exact ⟨parent, a, ⟨hfollow, entryAt_of_step hstep⟩, hstep, hentry⟩
  · rintro ⟨parent, a, ⟨hfollow, -⟩, hstep, hentry⟩
    exact ⟨a, ⟨parent, hfollow, hstep⟩, hentry⟩

/-- **The text of a file of a directory** is what stands at its place. -/
theorem textAt_join {tree : FileTree} {current : Address} {directory : FilePath}
    {name : String} (h : IsFileName name) :
    tree.textAt current (directory.join name) =
      (tree.place? current (directory.join name)).bind
        fun a => (tree.entryAt a).bind Entry.text? := by
  have hfile (e : Option Entry) (text : String) :
      e.bind Entry.text? = some text ↔ e = some (.file text) := by
    rcases e with _ | _ | _ <;> simp [Entry.text?]
  refine Option.ext fun text => ?_
  rw [textAt, hfile, standingAt_join_eq_some_iff h, Option.bind_eq_some_iff]
  simp only [hfile, place?_join_iff h]
  constructor
  · rintro ⟨hfits, parent, a, hleads, hstep, hentry⟩
    by_cases hname : isName name
    · obtain ⟨-, hsize, ha⟩ := (step_eq_ok_iff hname).mp hstep
      exact ⟨a, ⟨parent, hleads, hfits, hname, hsize, ha⟩, hentry⟩
    · obtain ⟨b, hstep', hdir⟩ := exists_step_dots hname hleads.2
      cases hstep.symm.trans hstep'
      rw [hdir] at hentry
      cases hentry
  · rintro ⟨a, ⟨parent, hleads, hfits, hname, hsize, ha⟩, hentry⟩
    exact ⟨hfits, parent, a, hleads, (step_eq_ok_iff hname).mpr ⟨hleads.2, hsize, ha⟩, hentry⟩

end FileTree

end Pagewright
