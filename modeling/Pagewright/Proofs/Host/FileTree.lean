import Mathlib.Data.Bool.Basic
import Mathlib.Logic.Function.Basic
import Pagewright.Host.FileTree
import Pagewright.Proofs.Sequencing

/-!
# A file tree as a map

Seen from outside, a file tree is a map from addresses to what stands there: a text, a directory, or
nothing (`FileTree.entryAt`). Every operation on files changes this map at one or two addresses and
nowhere else, although it rebuilds all directories on the way there. The theorems of this module say
so, once for each operation, and nothing else is used of the trees behind the map.

Where a path leads depends on the map only through its directories (`FileTree.place?_congr`). So
writing, moving and removing files does not change where any path leads.
-/

namespace Pagewright.FileTree

/-! ## Entries -/

/-- What stands at an address. -/
inductive Entry where
  | file (text : String)
  | directory
  deriving DecidableEq, Repr

/-- The text of a file. -/
def Entry.text? : Entry → Option String
  | file text => some text
  | directory => none

/-- A node without what is inside it. -/
def asEntry : FileTree → Entry
  | file text => .file text
  | directory _ => .directory

/-- What stands at an address, if anything does. -/
def entryAt (tree : FileTree) (address : Address) : Option Entry :=
  (tree.get? address).map asEntry

@[simp] theorem entryAt_nil (tree : FileTree) : tree.entryAt [] = some tree.asEntry := by
  cases tree <;> rfl

@[simp] theorem entryAt_file_cons (text name : String) (rest : Address) :
    (file text).entryAt (name :: rest) = none := rfl

@[simp] theorem entryAt_directory_cons (entries : List (String × FileTree)) (name : String)
    (rest : Address) :
    (directory entries).entryAt (name :: rest) = (entries.lookup name).bind (·.entryAt rest) := by
  unfold entryAt
  rw [get?]
  cases entries.lookup name <;> rfl

theorem entryAt_eq_directory_iff {tree : FileTree} {a : Address} :
    tree.entryAt a = some .directory ↔ ∃ entries, tree.get? a = some (directory entries) := by
  unfold entryAt
  rcases tree.get? a with _ | _ | _ <;> simp [asEntry]

theorem entryAt_eq_file_iff {tree : FileTree} {a : Address} {text : String} :
    tree.entryAt a = some (.file text) ↔ tree.get? a = some (file text) := by
  unfold entryAt
  rcases tree.get? a with _ | _ | _ <;> simp [asEntry]

theorem entryAt_eq_none_iff {tree : FileTree} {a : Address} :
    tree.entryAt a = none ↔ tree.get? a = none :=
  Option.map_eq_none_iff

/-- What stands in a directory does so because the directory is there. -/
theorem entryAt_dropLast {tree : FileTree} {a : Address}
    (h : tree.entryAt a = some .directory) : tree.entryAt a.dropLast = some .directory := by
  induction a generalizing tree with
  | nil => exact h
  | cons name rest ih =>
    cases tree with
    | file text => cases h
    | directory entries =>
      cases rest with
      | nil => rfl
      | cons next rest =>
        rw [entryAt_directory_cons] at h
        rw [List.dropLast_cons_of_ne_nil (List.cons_ne_nil _ _), entryAt_directory_cons]
        cases hsub : entries.lookup name with
        | none => rw [hsub] at h; cases h
        | some sub =>
          rw [hsub] at h
          exact ih h

/-! ## Changing one address -/

/-- A directory in which one name has been given another node. -/
theorem lookup_map_replace (entries : List (String × FileTree)) (name n : String)
    (tree : FileTree) :
    (entries.map fun (k, t) => if k = name then (k, tree) else (k, t)).lookup n
      = if n = name then (entries.lookup n).map fun _ => tree else entries.lookup n := by
  induction entries with
  | nil => simp
  | cons e entries ih =>
    obtain ⟨k, t⟩ := e
    grind

/-- What a directory holds under a name after that or another name has been changed. -/
theorem lookup_setEntry (entries : List (String × FileTree)) (name n : String)
    (node : Option FileTree) :
    (setEntry entries name node).lookup n = if n = name then node else entries.lookup n := by
  cases node with
  | none =>
    unfold setEntry
    induction entries with
    | nil => simp
    | cons e entries ih =>
      obtain ⟨k, t⟩ := e
      grind
  | some tree =>
    simp only [setEntry]
    by_cases hsome : (entries.lookup name).isSome
    · obtain ⟨old, hold⟩ := Option.isSome_iff_exists.mp hsome
      rw [if_pos hsome, lookup_map_replace]
      by_cases hn : n = name
      · rw [if_pos hn, if_pos hn, hn, hold]
        rfl
      · rw [if_neg hn, if_neg hn]
    · rw [if_neg hsome, List.lookup_append]
      rw [Option.not_isSome_iff_eq_none] at hsome
      by_cases hn : n = name
      · simp [hn, hsome]
      · simp [hn, List.lookup_cons, beq_false_of_ne hn]

/-- There is nothing inside the node. -/
def Childless : Option FileTree → Prop
  | none | some (file _) | some (directory []) => True
  | some (directory (_ :: _)) => False

/-- Nothing stands below an address without anything inside it. -/
theorem Childless.entryAt_cons {node : Option FileTree} (h : Childless node) (name : String)
    (rest : Address) : node.bind (·.entryAt (name :: rest)) = none := by
  rcases node with _ | text | (_ | ⟨e, entries⟩)
  · rfl
  · rfl
  · rfl
  · exact h.elim

/-- **A tree changed at one address** is changed there and nowhere else, as long as neither what
stood there nor what stands there now has anything inside it. The address must lie in a
directory. -/
theorem entryAt_set {tree : FileTree} {parent : Address} {name : String} {node : Option FileTree}
    (hparent : tree.entryAt parent = some .directory)
    (hold : Childless (tree.get? (parent ++ [name]))) (hnew : Childless node) :
    (tree.set node (parent ++ [name])).entryAt
      = Function.update tree.entryAt (parent ++ [name]) (node.map asEntry) := by
  funext b
  induction parent generalizing tree b with
  | nil =>
    cases tree with
    | file text => cases hparent
    | directory entries =>
      show (directory (setEntry entries name node)).entryAt b = _
      cases b with
      | nil => rfl
      | cons n rest =>
        rw [entryAt_directory_cons, lookup_setEntry]
        by_cases hn : n = name
        · subst hn
          rw [if_pos rfl]
          cases rest with
          | nil => cases node <;> simp
          | cons m rest =>
            have hbelow : (directory entries).entryAt (n :: m :: rest) = none := by
              have hlookup : (directory entries).get? ([] ++ [n]) = entries.lookup n := by
                simp only [List.nil_append, get?]
                cases entries.lookup n <;> rfl
              rw [hlookup] at hold
              rw [entryAt_directory_cons]
              exact hold.entryAt_cons m rest
            rw [hnew.entryAt_cons, Function.update_of_ne (by simp), hbelow]
        · rw [if_neg hn, Function.update_of_ne (by simp [hn]), entryAt_directory_cons]
  | cons d parent ih =>
    cases tree with
    | file text => cases hparent
    | directory entries =>
      rw [entryAt_directory_cons] at hparent
      cases hd : entries.lookup d with
      | none => rw [hd] at hparent; cases hparent
      | some sub =>
        rw [hd] at hparent
        have hset : (directory entries).set node (d :: parent ++ [name])
            = directory (setEntry entries d (some (sub.set node (parent ++ [name])))) := by
          cases parent <;> simp [set, hd]
        have hold' : Childless (sub.get? (parent ++ [name])) := by
          rw [List.cons_append, get?, hd] at hold
          exact hold
        rw [hset]
        cases b with
        | nil => rfl
        | cons n rest =>
          rw [entryAt_directory_cons, lookup_setEntry]
          by_cases hn : n = d
          · subst hn
            rw [if_pos rfl]
            show (sub.set node (parent ++ [name])).entryAt rest = _
            rw [ih hparent hold']
            by_cases hrest : rest = parent ++ [name]
            · rw [hrest, Function.update_self, List.cons_append, Function.update_self]
            · rw [Function.update_of_ne hrest, Function.update_of_ne (by simpa using hrest),
                entryAt_directory_cons, hd]
              rfl
          · rw [if_neg hn, Function.update_of_ne (by simp [hn]), entryAt_directory_cons]

/-! ## Where a path leads -/

/-- The address of a file of this path, whether or not it is there: the last piece of the path is a
name, and everything before it leads to a directory. -/
def place? (tree : FileTree) (current : Address) (path : FilePath) : Option Address := do
  let r ← (route current path).toOption
  let parent ← (r.parent tree).toOption
  let name ← r.last.filter isName
  (tree.step parent name).toOption

theorem asDirectory_eq_ok_iff {tree : FileTree} {a : Address} :
    tree.asDirectory a = .ok () ↔ tree.entryAt a = some .directory := by
  unfold asDirectory entryAt
  rcases tree.get? a with _ | text | entries <;> simp [asEntry]

/-- A step is taken from a directory only. -/
theorem entryAt_of_step {tree : FileTree} {a b : Address} {piece : String}
    (h : tree.step a piece = .ok b) : tree.entryAt a = some .directory := by
  unfold step at h
  cases hd : tree.asDirectory a with
  | error e => rw [hd] at h; cases h
  | ok _ => exact asDirectory_eq_ok_iff.mp hd

/-- Where a step from a directory leads does not depend on the tree. -/
theorem step_eq_step {tree tree' : FileTree} {a : Address} (piece : String)
    (h : tree.entryAt a = some .directory) (h' : tree'.entryAt a = some .directory) :
    tree.step a piece = tree'.step a piece := by
  unfold step
  rw [asDirectory_eq_ok_iff.mpr h, asDirectory_eq_ok_iff.mpr h']

/-- A step under a name. -/
theorem step_eq_ok_iff {tree : FileTree} {a b : Address} {name : String} (hname : isName name) :
    tree.step a name = .ok b ↔
      tree.entryAt a = some .directory ∧ name.utf8ByteSize ≤ longestName ∧ b = a ++ [name] := by
  have hdots : name ≠ "." ∧ name ≠ ".." := by simpa [isName] using hname
  refine ⟨fun h => ⟨entryAt_of_step h, ?_⟩, fun ⟨hd, hsize, hb⟩ => ?_⟩
  · have hd := entryAt_of_step h
    unfold step at h
    rw [asDirectory_eq_ok_iff.mpr hd] at h
    replace h : (if name = "." then .ok a
        else if name = ".." then .ok a.dropLast
        else if name.utf8ByteSize > longestName then .error OsError.nameTooLong
        else .ok (a ++ [name])) = Except.ok b := h
    rw [if_neg hdots.1, if_neg hdots.2] at h
    split at h
    · cases h
    · exact ⟨Nat.le_of_not_gt ‹_›, (Except.ok.inj h).symm⟩
  · unfold step
    rw [asDirectory_eq_ok_iff.mpr hd]
    show (if name = "." then .ok a
        else if name = ".." then .ok a.dropLast
        else if name.utf8ByteSize > longestName then .error OsError.nameTooLong
        else .ok (a ++ [name])) = Except.ok b
    rw [if_neg hdots.1, if_neg hdots.2, if_neg (Nat.not_lt_of_ge hsize), hb]

/-- **Paths lead on** in a tree that has at least the same directories. -/
theorem follow_mono {tree tree' : FileTree}
    (hdirs : ∀ a, tree.entryAt a = some .directory → tree'.entryAt a = some .directory)
    {pieces : List String} {a b : Address} (h : tree.follow a pieces = .ok b) :
    tree'.follow a pieces = .ok b := by
  induction pieces generalizing a with
  | nil => exact h
  | cons piece rest ih =>
    unfold follow at h ⊢
    cases hs : tree.step a piece with
    | error e => rw [hs] at h; cases h
    | ok next =>
      rw [hs] at h
      have hdir := entryAt_of_step hs
      rw [← step_eq_step piece hdir (hdirs a hdir), hs]
      exact ih h

/-- The parent of a route is the directory that all pieces but the last lead to. -/
theorem Route.parent_eq_ok_iff {tree : FileTree} {r : Route} {a : Address} :
    r.parent tree = .ok a ↔
      tree.follow r.start r.before = .ok a ∧ tree.entryAt a = some .directory := by
  unfold Route.parent
  cases hf : tree.follow r.start r.before with
  | error e => exact ⟨(fun h => nomatch h), (fun h => nomatch h.1)⟩
  | ok b =>
    show (tree.asDirectory b >>= fun _ => pure b) = _ ↔ _
    cases hd : tree.asDirectory b with
    | error e =>
      refine ⟨(fun h => nomatch h), fun h => ?_⟩
      cases h.1
      rw [asDirectory_eq_ok_iff.mpr h.2] at hd
      cases hd
    | ok _ =>
      refine ⟨fun h => ?_, fun h => h.1⟩
      cases h
      exact ⟨rfl, asDirectory_eq_ok_iff.mp hd⟩

/-- **Where a file of a path stands**, step by step. -/
theorem place?_eq_some_iff {tree : FileTree} {current a : Address} {path : FilePath} :
    tree.place? current path = some a ↔
      ∃ r parent name, route current path = .ok r ∧ tree.follow r.start r.before = .ok parent ∧
        tree.entryAt parent = some .directory ∧ r.last = some name ∧ isName name ∧
        name.utf8ByteSize ≤ longestName ∧ a = parent ++ [name] := by
  simp only [place?, Option.bind_eq_bind, Option.bind_eq_some_iff, toOption_eq_some_iff,
    Route.parent_eq_ok_iff, Option.filter_eq_some_iff]
  constructor
  · rintro ⟨r, hr, parent, ⟨hf, hdir⟩, name, ⟨hlast, hname⟩, hstep⟩
    obtain ⟨-, hsize, ha⟩ := (step_eq_ok_iff hname).mp hstep
    exact ⟨r, parent, name, hr, hf, hdir, hlast, hname, hsize, ha⟩
  · rintro ⟨r, parent, name, hr, hf, hdir, hlast, hname, hsize, ha⟩
    exact ⟨r, hr, parent, ⟨hf, hdir⟩, name, ⟨hlast, hname⟩,
      (step_eq_ok_iff hname).mpr ⟨hdir, hsize, ha⟩⟩

/-- A file stands in a directory. -/
theorem exists_of_place? {tree : FileTree} {current a : Address} {path : FilePath}
    (h : tree.place? current path = some a) :
    ∃ parent name, a = parent ++ [name] ∧ tree.entryAt parent = some .directory := by
  obtain ⟨-, parent, name, -, -, hdir, -, -, -, ha⟩ := place?_eq_some_iff.mp h
  exact ⟨parent, name, ha, hdir⟩

/-- A path still leads to its place in a tree that has at least the same directories. -/
theorem place?_mono {tree tree' : FileTree}
    (hdirs : ∀ a, tree.entryAt a = some .directory → tree'.entryAt a = some .directory)
    {current a : Address} {path : FilePath} (h : tree.place? current path = some a) :
    tree'.place? current path = some a := by
  obtain ⟨r, parent, name, hr, hf, hdir, hrest⟩ := place?_eq_some_iff.mp h
  exact place?_eq_some_iff.mpr
    ⟨r, parent, name, hr, follow_mono hdirs hf, hdirs parent hdir, hrest⟩

/-- **Where paths lead depends on the directories of a tree alone.** -/
theorem place?_congr {tree tree' : FileTree}
    (hdirs : ∀ a, tree.entryAt a = some .directory ↔ tree'.entryAt a = some .directory) :
    tree.place? = tree'.place? := by
  funext current path
  refine Option.ext (fun a => ⟨?_, ?_⟩)
  · exact place?_mono (fun a => (hdirs a).mp)
  · exact place?_mono (fun a => (hdirs a).mpr)

/-! ## Operations -/

theorem childless_of_entryAt {tree : FileTree} {a : Address}
    (h : tree.entryAt a ≠ some .directory) : Childless (tree.get? a) := by
  unfold entryAt at h
  revert h
  rcases tree.get? a with _ | text | entries
  · exact fun _ => trivial
  · exact fun _ => trivial
  · exact fun h => absurd rfl h

/-- A change at the place of a path that is no directory. -/
theorem entryAt_set_place {tree : FileTree} {current a : Address} {path : FilePath}
    {node : Option FileTree} (hplace : tree.place? current path = some a)
    (hold : tree.entryAt a ≠ some .directory) (hnew : Childless node) :
    (tree.set node a).entryAt = Function.update tree.entryAt a (node.map asEntry) := by
  obtain ⟨parent, name, rfl, hdir⟩ := exists_of_place? hplace
  exact entryAt_set hdir (childless_of_entryAt hold) hnew

/-- Goes to the place of a path and acts there. A path that does not end in a name is refused. -/
def lead {β : Type} (tree : FileTree) (current : Address) (path : FilePath) (refusal : OsError)
    (act : Address → Except OsError β) : Except OsError β :=
  route current path >>= fun r => r.parent tree >>= fun parent =>
    (r.last.filter isName).elim (throw refusal) fun name => tree.step parent name >>= act

theorem lead_eq_ok_iff {tree : FileTree} {current : Address} {path : FilePath} {β : Type}
    {refusal : OsError} {act : Address → Except OsError β} {result : β} :
    tree.lead current path refusal act = .ok result ↔
      ∃ a, tree.place? current path = some a ∧ act a = .ok result := by
  simp only [lead, bind_eq_ok_iff, Route.parent_eq_ok_iff, place?_eq_some_iff]
  constructor
  · rintro ⟨r, hr, parent, ⟨hf, hdir⟩, h⟩
    cases hlast : r.last.filter isName with
    | none => rw [hlast] at h; cases h
    | some name =>
      rw [hlast] at h
      obtain ⟨a, hstep, hact⟩ := bind_eq_ok_iff.mp h
      obtain ⟨hl, hname⟩ := Option.filter_eq_some_iff.mp hlast
      obtain ⟨-, hsize, ha⟩ := (step_eq_ok_iff hname).mp hstep
      exact ⟨a, ⟨r, parent, name, hr, hf, hdir, hl, hname, hsize, ha⟩, hact⟩
  · rintro ⟨a, ⟨r, parent, name, hr, hf, hdir, hlast, hname, hsize, ha⟩, hact⟩
    refine ⟨r, hr, parent, ⟨hf, hdir⟩, ?_⟩
    rw [Option.filter_eq_some_iff.mpr ⟨hlast, hname⟩]
    exact bind_eq_ok_iff.mpr ⟨a, (step_eq_ok_iff hname).mpr ⟨hdir, hsize, ha⟩, hact⟩

/-- **Making a directory** adds one at the place of its path, where nothing was. -/
theorem makeDirectory_eq_ok_iff {tree tree' : FileTree} {current : Address} {path : FilePath} :
    tree.makeDirectory current path = .ok tree' ↔
      ∃ a, tree.place? current path = some a ∧ tree.entryAt a = none ∧
        tree' = tree.set (some (directory [])) a := by
  have hlead : tree.makeDirectory current path = tree.lead current path .alreadyExists fun a =>
      if (tree.get? a).isSome then throw .alreadyExists
      else pure (tree.set (some (directory [])) a) := by
    refine bind_congr fun r => bind_congr fun parent => ?_
    cases r.last.filter isName <;> rfl
  rw [hlead, lead_eq_ok_iff]
  refine exists_congr fun a => and_congr_right' ?_
  rw [entryAt_eq_none_iff]
  cases tree.get? a with
  | none => exact ⟨fun h => ⟨rfl, (Except.ok.inj h).symm⟩, fun h => congrArg Except.ok h.2.symm⟩
  | some node => exact ⟨(fun h => nomatch h), (fun h => nomatch h.1)⟩

/-- **Removing a file** leaves nothing at the place of its path. -/
theorem remove_eq_ok_iff {tree tree' : FileTree} {current : Address} {path : FilePath} :
    tree.remove current path = .ok tree' ↔
      ∃ a, tree.place? current path = some a ∧ (∃ text, tree.entryAt a = some (.file text)) ∧
        tree' = tree.set none a := by
  have hlead : tree.remove current path = tree.lead current path .isDirectory fun a =>
      if tree.entryAt a = some .directory then throw .isDirectory
      else if tree.entryAt a = none then throw .notFound
      else pure (tree.set none a) := by
    refine bind_congr fun r => bind_congr fun parent => ?_
    cases r.last.filter isName with
    | none => rfl
    | some name =>
      refine bind_congr fun a => ?_
      unfold entryAt
      rcases tree.get? a with _ | text | entries <;> rfl
  rw [hlead, lead_eq_ok_iff]
  refine exists_congr fun a => and_congr_right' ?_
  rcases tree.entryAt a with _ | text | _
  · exact ⟨(fun h => nomatch h), fun ⟨⟨_, h⟩, _⟩ => nomatch h⟩
  · exact ⟨fun h => ⟨⟨text, rfl⟩, (Except.ok.inj h).symm⟩, fun h => congrArg Except.ok h.2.symm⟩
  · exact ⟨(fun h => nomatch h), fun ⟨⟨_, h⟩, _⟩ => nomatch h⟩

/-- The route of a path ends in a slash if the path does. -/
theorem endsInSlash_of_route {current : Address} {path : FilePath} {r : Route}
    (h : route current path = .ok r) : r.endsInSlash = (path.toList.getLast? = some '/') := by
  unfold route at h
  split at h
  · cases h
  · split at h
    · cases h
    · split at h
      · cases h
      · cases h
        simp

/-- **Writing a file** gives it its text, unless a directory stands at its place. The path must not
end in a slash. -/
theorem write_eq_ok_iff {tree tree' : FileTree} {current : Address} {path : FilePath}
    {text : String} (hpath : path.toList.getLast? ≠ some '/') :
    tree.write current path text = .ok tree' ↔
      ∃ a, tree.place? current path = some a ∧ tree.entryAt a ≠ some .directory ∧
        tree' = tree.set (some (file text)) a := by
  have hlead : tree.write current path text = tree.lead current path .isDirectory fun a =>
      if tree.entryAt a = some .directory then throw .isDirectory
      else pure (tree.set (some (file text)) a) := by
    unfold write lead
    cases hr : route current path with
    | error e => rfl
    | ok r =>
      have hslash : r.endsInSlash = false := by simpa [hpath] using endsInSlash_of_route hr
      refine bind_congr (m := Except OsError) (x := r.parent tree) fun parent => ?_
      have hfilter : (fun piece => isName piece && !r.endsInSlash) = isName := by
        funext piece
        rw [hslash, Bool.not_false, Bool.and_true]
      rw [hfilter]
      cases r.last.filter isName with
      | none => rfl
      | some name =>
        refine bind_congr fun a => ?_
        unfold entryAt
        rcases tree.get? a with _ | text | entries <;> rfl
  rw [hlead, lead_eq_ok_iff]
  refine exists_congr fun a => and_congr_right' ?_
  by_cases hdir : tree.entryAt a = some .directory
  · rw [if_pos hdir]
    exact ⟨(fun h => nomatch h), fun h => absurd hdir h.1⟩
  · rw [if_neg hdir]
    exact ⟨fun h => ⟨hdir, (Except.ok.inj h).symm⟩, fun h => congrArg Except.ok h.2.symm⟩

/-- What a move has done if it succeeded: there was a node at the place of the first path, and
nothing stood in its way at the place of the second. -/
theorem exists_of_rename {tree tree' : FileTree} {current : Address} {source target : FilePath}
    (h : tree.rename current source target = .ok tree') :
    ∃ a b node, tree.place? current source = some a ∧ tree.place? current target = some b ∧
      tree.get? a = some node ∧
      (a ≠ b → (tree.get? b).bind (obstacle? node) = none ∧
        tree' = (tree.set none a).set (some node) b) := by
  simp only [rename, bind_eq_ok_iff] at h
  obtain ⟨s, hs, t, ht, sourceParent, hsp, targetParent, htp, h⟩ := h
  split at h
  · rename_i sourceName targetName hsource htarget
    simp only [bind_eq_ok_iff] at h
    obtain ⟨a, ha, b, hb, h⟩ := h
    have hplaces : tree.place? current source = some a ∧ tree.place? current target = some b := by
      simp [place?, hs, ht, hsp, htp, hsource, htarget, ha, hb, Except.toOption]
    split at h
    · cases h
    · rename_i node hnode
      refine ⟨a, b, node, hplaces.1, hplaces.2, hnode, fun hab => ?_⟩
      rw [if_neg hab] at h
      split at h
      · cases h
      · exact ⟨‹_›, (Except.ok.inj h).symm⟩
  · cases h

/-- **A file can be moved** to any other place where no directory stands. -/
theorem rename_file {tree : FileTree} {current a b : Address} {source target : FilePath}
    {text : String} (hsource : tree.place? current source = some a)
    (htarget : tree.place? current target = some b) (hab : a ≠ b)
    (ha : tree.entryAt a = some (.file text)) (hb : tree.entryAt b ≠ some .directory) :
    tree.rename current source target = .ok ((tree.set none a).set (some (file text)) b) := by
  obtain ⟨s, sourceParent, sourceName, hs, hsf, hsdir, hslast, hsname, hssize, hsa⟩ :=
    place?_eq_some_iff.mp hsource
  obtain ⟨t, targetParent, targetName, ht, htf, htdir, htlast, htname, htsize, htb⟩ :=
    place?_eq_some_iff.mp htarget
  have hobstacle : (tree.get? b).bind (obstacle? (file text)) = none := by
    revert hb
    unfold entryAt
    rcases tree.get? b with _ | _ | _
    · exact fun _ => rfl
    · exact fun _ => rfl
    · exact fun h => absurd rfl h
  simp only [rename, hs, ht, Route.parent_eq_ok_iff.mpr ⟨hsf, hsdir⟩,
    Route.parent_eq_ok_iff.mpr ⟨htf, htdir⟩, hslast, htlast, Option.filter_some, hsname, htname,
    if_true, (step_eq_ok_iff hsname).mpr ⟨hsdir, hssize, hsa⟩,
    (step_eq_ok_iff htname).mpr ⟨htdir, htsize, htb⟩, entryAt_eq_file_iff.mp ha, hobstacle,
    if_neg hab, bind, Except.bind, pure, Except.pure]

/-! ## Operations as changes of the map -/

section Maps

variable {tree tree' : FileTree} {current : Address}

/-- The map after a directory has been made. -/
theorem entryAt_makeDirectory {path : FilePath} (h : tree.makeDirectory current path = .ok tree') :
    ∃ a, tree.place? current path = some a ∧ tree.entryAt a = none ∧
      tree'.entryAt = Function.update tree.entryAt a (some .directory) := by
  obtain ⟨a, hplace, hnone, rfl⟩ := makeDirectory_eq_ok_iff.mp h
  exact ⟨a, hplace, hnone, entryAt_set_place hplace (by simp [hnone]) trivial⟩

/-- The map after a file has been written. -/
theorem entryAt_write {path : FilePath} {text : String}
    (hpath : path.toList.getLast? ≠ some '/') (h : tree.write current path text = .ok tree') :
    ∃ a, tree.place? current path = some a ∧ tree.entryAt a ≠ some .directory ∧
      tree'.entryAt = Function.update tree.entryAt a (some (.file text)) := by
  obtain ⟨a, hplace, hdir, rfl⟩ := (write_eq_ok_iff hpath).mp h
  exact ⟨a, hplace, hdir, entryAt_set_place hplace hdir trivial⟩

/-- The map after a file has been removed. -/
theorem entryAt_remove {path : FilePath} (h : tree.remove current path = .ok tree') :
    ∃ a, tree.place? current path = some a ∧ (∃ text, tree.entryAt a = some (.file text)) ∧
      tree'.entryAt = Function.update tree.entryAt a none := by
  obtain ⟨a, hplace, ⟨text, hfile⟩, rfl⟩ := remove_eq_ok_iff.mp h
  exact ⟨a, hplace, ⟨text, hfile⟩, entryAt_set_place hplace (by simp [hfile]) trivial⟩

/-- The map after a file has been moved to another place. -/
theorem entryAt_rename {source target : FilePath} {a b : Address} {text : String}
    (hsource : tree.place? current source = some a)
    (htarget : tree.place? current target = some b) (hab : a ≠ b)
    (ha : tree.entryAt a = some (.file text))
    (h : tree.rename current source target = .ok tree') :
    tree.entryAt b ≠ some .directory ∧
      tree'.entryAt
        = Function.update (Function.update tree.entryAt a none) b (some (.file text)) := by
  obtain ⟨a', b', node, ha', hb', hnode, hmoved⟩ := exists_of_rename h
  cases Option.some.inj (hsource.symm.trans ha')
  cases Option.some.inj (htarget.symm.trans hb')
  cases Option.some.inj (hnode.symm.trans (entryAt_eq_file_iff.mp ha))
  obtain ⟨hobstacle, rfl⟩ := hmoved hab
  have hb : tree.entryAt b ≠ some .directory := by
    intro hdir
    obtain ⟨entries, hentries⟩ := entryAt_eq_directory_iff.mp hdir
    rw [hentries] at hobstacle
    cases hobstacle
  have hremoved : (tree.set none a).entryAt = Function.update tree.entryAt a none :=
    entryAt_set_place hsource (by simp [ha]) trivial
  -- Without the file all paths lead where they led, since no directory has gone.
  have hplaces : (tree.set none a).place? = tree.place? := by
    refine place?_congr fun c => ?_
    rw [hremoved]
    by_cases hc : c = a
    · simp [hc, ha]
    · rw [Function.update_of_ne hc]
  have hplace : (tree.set none a).place? current target = some b := by
    rw [hplaces]
    exact htarget
  have hclear : (tree.set none a).entryAt b ≠ some .directory := by
    rw [hremoved, Function.update_of_ne hab.symm]
    exact hb
  have hnew : Childless (some (file text)) := trivial
  exact ⟨hb, by rw [entryAt_set_place hplace hclear hnew, hremoved]; rfl⟩

end Maps

end Pagewright.FileTree
