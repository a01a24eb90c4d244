import Mathlib.Data.List.Forall2
import Mathlib.Data.List.Perm.Basic
import Pagewright.Proofs.Sequencing
import Pagewright.Schema.Decode

/-!
# Members in any order

The fields of a record find their members by name, so the order of the members does not matter, and
neither do members that no field has a name for. The tag of a tagged record is found by its name as
well; what is left once it has been taken out is a record like any other.
-/

namespace Pagewright.Schema

open Json (Problem)

/-! ## Slots -/

namespace Slots

section

variable {m : Type → Type} [Monad m] {name : String} {value : (f : Field) → m f.Value}
  {twice other : m Unit} {f : Field} {fs : List Field}

theorem fill_found (h : f.name = name) (slots : Slots fs) :
    fill name value twice other (f :: fs) (none, slots) =
      (do return (some (← value f), slots)) :=
  if_pos h

theorem fill_twice (h : f.name = name) (v : f.Value) (slots : Slots fs) :
    fill name value twice other (f :: fs) (some v, slots) =
      (do
        twice
        return (some v, slots)) :=
  if_pos h

theorem fill_other (h : f.name ≠ name) (slot : Option f.Value) (slots : Slots fs) :
    fill name value twice other (f :: fs) (slot, slots) =
      (do return (slot, ← fill name value twice other fs slots)) :=
  if_neg h

end

end Slots

/-! ## One member -/

/-- What a member does to the fields. -/
def decodeMember (fs : List Field) (m : String × Json) (slots : Slots fs) :
    Except Problem (Slots fs) :=
  Slots.fill m.1 (fun f => f.receive (.ok (isNull m.2)) (decode f.shape m.2))
    (.error (.duplicateField m.1)) (.ok ()) fs slots

/-- The field of a name. -/
def fieldOf (fs : List Field) (name : String) : Option Field :=
  fs.find? (·.name = name)

section

variable {fs : List Field} {f : Field}

theorem fieldOf_cons_eq {name : String} (h : f.name = name) : fieldOf (f :: fs) name = some f :=
  List.find?_cons_of_pos (decide_eq_true h)

theorem fieldOf_cons_ne {name : String} (h : f.name ≠ name) :
    fieldOf (f :: fs) name = fieldOf fs name :=
  List.find?_cons_of_neg (by simpa using h)

theorem decodeMembers_cons (m : String × Json) (rest : List (String × Json)) (slots : Slots fs) :
    decodeMembers none fs slots (m :: rest) =
      (do decodeMembers none fs (← decodeMember fs m slots) rest) := by
  rfl

/-- **What a member can do.** It gives the first field its value, if it has the name of that field,
and otherwise it is left to the fields behind. -/
theorem decodeMember_cons_eq_ok_iff {m : String × Json} {slot : Option f.Value} {slots : Slots fs}
    {result : Slots (f :: fs)} :
    decodeMember (f :: fs) m (slot, slots) = .ok result ↔
      (f.name = m.1 ∧ slot = none ∧ ∃ v,
        f.receive (.ok (isNull m.2)) (decode f.shape m.2) = .ok v ∧ result = (some v, slots)) ∨
      (f.name ≠ m.1 ∧
        ∃ slots', decodeMember fs m slots = .ok slots' ∧ result = (slot, slots')) := by
  by_cases hname : f.name = m.1
  · cases slot with
    | none =>
      unfold decodeMember
      rw [Slots.fill_found hname]
      constructor
      · intro h
        obtain ⟨v, hv, hresult⟩ := bind_eq_ok_iff.1 h
        cases hresult
        exact .inl ⟨hname, rfl, v, hv, rfl⟩
      · rintro (⟨-, -, v, hv, rfl⟩ | ⟨hne, -⟩)
        · rw [hv]
          rfl
        · exact absurd hname hne
    | some v =>
      unfold decodeMember
      rw [Slots.fill_twice hname]
      constructor
      · intro h
        cases h
      · rintro (⟨-, hslot, -⟩ | ⟨hne, -⟩)
        · cases hslot
        · exact absurd hname hne
  · unfold decodeMember
    rw [Slots.fill_other hname]
    constructor
    · intro h
      obtain ⟨slots', hslots', hresult⟩ := bind_eq_ok_iff.1 h
      cases hresult
      exact .inr ⟨hname, slots', hslots', rfl⟩
    · rintro (⟨heq, -⟩ | ⟨-, slots', hslots', rfl⟩)
      · exact absurd heq hname
      · rw [hslots']
        rfl

/-- A member that no field has a name for changes nothing. -/
theorem decodeMember_unknown {m : String × Json} (h : fieldOf fs m.1 = none) (slots : Slots fs) :
    decodeMember fs m slots = .ok slots := by
  induction fs with
  | nil => rfl
  | cons f fs ih =>
    by_cases hname : f.name = m.1
    · rw [fieldOf_cons_eq hname] at h
      cases h
    · rw [fieldOf_cons_ne hname] at h
      exact decodeMember_cons_eq_ok_iff.2 (.inr ⟨hname, slots.2, ih h slots.2, rfl⟩)

/-- A member counts by what its field makes of it. -/
theorem decodeMember_congr {name : String} {j j' : Json}
    (h : ∀ f v, fieldOf fs name = some f → f.receive (.ok (isNull j)) (decode f.shape j) = .ok v →
      f.receive (.ok (isNull j')) (decode f.shape j') = .ok v) {slots slots' : Slots fs}
    (hslots : decodeMember fs (name, j) slots = .ok slots') :
    decodeMember fs (name, j') slots = .ok slots' := by
  induction fs with
  | nil => exact hslots
  | cons f fs ih =>
    obtain ⟨hname, hslot, v, hv, hresult⟩ | ⟨hname, slots'', hslots'', hresult⟩ :=
      decodeMember_cons_eq_ok_iff.1 hslots
    · exact decodeMember_cons_eq_ok_iff.2
        (.inl ⟨hname, hslot, v, h f v (fieldOf_cons_eq hname) hv, hresult⟩)
    · rw [fieldOf_cons_ne hname] at h
      exact decodeMember_cons_eq_ok_iff.2 (.inr ⟨hname, slots'', ih h hslots'', hresult⟩)

/-- Two members may change places. -/
theorem decodeMember_comm {m m' : String × Json} {slots slots₁ slots₂ : Slots fs}
    (h : decodeMember fs m slots = .ok slots₁) (h' : decodeMember fs m' slots₁ = .ok slots₂) :
    ∃ slots', decodeMember fs m' slots = .ok slots' ∧ decodeMember fs m slots' = .ok slots₂ := by
  induction fs with
  | nil => exact ⟨slots, rfl, h.trans (by cases h'; rfl)⟩
  | cons f fs ih =>
    obtain ⟨slot, slots⟩ := slots
    obtain ⟨hname, rfl, v, hv, rfl⟩ | ⟨hname, slots₁, hslots₁, rfl⟩ :=
      decodeMember_cons_eq_ok_iff.1 h
    · obtain ⟨-, hslot, -⟩ | ⟨hname', slots₂, hslots₂, rfl⟩ := decodeMember_cons_eq_ok_iff.1 h'
      · cases hslot
      · exact ⟨(none, slots₂), decodeMember_cons_eq_ok_iff.2 (.inr ⟨hname', slots₂, hslots₂, rfl⟩),
          decodeMember_cons_eq_ok_iff.2 (.inl ⟨hname, rfl, v, hv, rfl⟩)⟩
    · obtain ⟨hname', rfl, v, hv, rfl⟩ | ⟨hname', slots₂, hslots₂, rfl⟩ :=
        decodeMember_cons_eq_ok_iff.1 h'
      · exact ⟨(some v, slots), decodeMember_cons_eq_ok_iff.2 (.inl ⟨hname', rfl, v, hv, rfl⟩),
          decodeMember_cons_eq_ok_iff.2 (.inr ⟨hname, slots₁, hslots₁, rfl⟩)⟩
      · obtain ⟨slots', hfirst, hsecond⟩ := ih hslots₁ hslots₂
        exact ⟨(slot, slots'), decodeMember_cons_eq_ok_iff.2 (.inr ⟨hname', slots', hfirst, rfl⟩),
          decodeMember_cons_eq_ok_iff.2 (.inr ⟨hname, slots₂, hsecond, rfl⟩)⟩

/-! ## All members -/

theorem exists_of_decodeMembers_cons {m : String × Json} {rest : List (String × Json)}
    {slots slots' : Slots fs} (h : decodeMembers none fs slots (m :: rest) = .ok slots') :
    ∃ slots₁, decodeMember fs m slots = .ok slots₁ ∧
      decodeMembers none fs slots₁ rest = .ok slots' := by
  rw [decodeMembers_cons] at h
  exact bind_eq_ok_iff.1 h

/-- **The order of the members does not matter.** -/
theorem decodeMembers_perm {members members' : List (String × Json)} (h : members.Perm members')
    {slots slots' : Slots fs} (hslots : decodeMembers none fs slots members = .ok slots') :
    decodeMembers none fs slots members' = .ok slots' := by
  induction h generalizing slots with
  | nil => exact hslots
  | cons m _ ih =>
    obtain ⟨slots₁, hm, hrest⟩ := exists_of_decodeMembers_cons hslots
    rw [decodeMembers_cons, hm]
    exact ih hrest
  | swap m m' rest =>
    obtain ⟨slots₁, hm', hslots⟩ := exists_of_decodeMembers_cons hslots
    obtain ⟨slots₂, hm, hrest⟩ := exists_of_decodeMembers_cons hslots
    obtain ⟨slots₁', hfirst, hsecond⟩ := decodeMember_comm hm' hm
    rw [decodeMembers_cons, hfirst]
    show decodeMembers none fs slots₁' (m' :: rest) = _
    rw [decodeMembers_cons, hsecond]
    exact hrest
  | trans _ _ ih ih' => exact ih' (ih hslots)

end

/-! ## Lists -/

theorem decodeItems_eq_ok_iff {s : Shape} {items : List Json} {values : List s.Value} :
    decodeItems s items = .ok values ↔
      List.Forall₂ (fun j v => decode s j = .ok v) items values := by
  induction items generalizing values with
  | nil =>
    rw [List.forall₂_nil_left_iff]
    exact ⟨fun h => (Except.ok.inj h).symm, fun h => congrArg _ h.symm⟩
  | cons j rest ih =>
    rw [List.forall₂_cons_left_iff]
    unfold decodeItems
    constructor
    · intro h
      obtain ⟨v, hv, h⟩ := bind_eq_ok_iff.1 h
      obtain ⟨vs, hvs, h⟩ := bind_eq_ok_iff.1 h
      exact ⟨v, vs, hv, ih.1 hvs, (Except.ok.inj h).symm⟩
    · rintro ⟨v, vs, hv, hvs, rfl⟩
      rw [hv, ih.2 hvs]
      rfl

/-! ## Records -/

namespace Layout

variable {α : Type} {layout : Layout α} {members members' : List (String × Json)} {a : α}

theorem ofMembers_eq_ok_iff :
    layout.ofMembers members = .ok a ↔
      ∃ slots, decodeMembers none layout.fields (Slots.empty _) members = .ok slots ∧
        ∃ values, finishFields _ slots = .ok values ∧ Curried.apply _ layout.build values = a := by
  constructor
  · intro h
    obtain ⟨slots, hslots, h⟩ := bind_eq_ok_iff.1 h
    obtain ⟨values, hvalues, h⟩ := bind_eq_ok_iff.1 h
    cases h
    exact ⟨slots, hslots, values, hvalues, rfl⟩
  · rintro ⟨slots, hslots, values, hvalues, rfl⟩
    unfold ofMembers
    rw [hslots]
    show layout.ofSlots slots = _
    unfold ofSlots
    rw [hvalues]
    rfl

theorem ofMembers_perm (h : members.Perm members') (ha : layout.ofMembers members = .ok a) :
    layout.ofMembers members' = .ok a := by
  obtain ⟨slots, hslots, hvalues⟩ := ofMembers_eq_ok_iff.1 ha
  exact ofMembers_eq_ok_iff.2 ⟨slots, decodeMembers_perm h hslots, hvalues⟩

/-- A member that no field has a name for may be added. -/
theorem ofMembers_add {before after : List (String × Json)} {m : String × Json}
    (hm : fieldOf layout.fields m.1 = none) (ha : layout.ofMembers (before ++ after) = .ok a) :
    layout.ofMembers (before ++ m :: after) = .ok a := by
  refine ofMembers_perm List.perm_middle.symm ?_
  obtain ⟨slots, hslots, hvalues⟩ := ofMembers_eq_ok_iff.1 ha
  refine ofMembers_eq_ok_iff.2 ⟨slots, ?_, hvalues⟩
  rw [decodeMembers_cons, decodeMember_unknown hm]
  exact hslots

/-- A member may be replaced by one that its field makes the same of. -/
theorem ofMembers_congr {before after : List (String × Json)} {name : String} {j j' : Json}
    (h : ∀ f v, fieldOf layout.fields name = some f →
      f.receive (.ok (isNull j)) (decode f.shape j) = .ok v →
      f.receive (.ok (isNull j')) (decode f.shape j') = .ok v)
    (ha : layout.ofMembers (before ++ (name, j) :: after) = .ok a) :
    layout.ofMembers (before ++ (name, j') :: after) = .ok a := by
  refine ofMembers_perm List.perm_middle.symm ?_
  obtain ⟨slots, hslots, hvalues⟩ := ofMembers_eq_ok_iff.1 (ofMembers_perm List.perm_middle ha)
  obtain ⟨slots₁, hm, hrest⟩ := exists_of_decodeMembers_cons hslots
  refine ofMembers_eq_ok_iff.2 ⟨slots, ?_, hvalues⟩
  rw [decodeMembers_cons, decodeMember_congr h hm]
  exact hrest

end Layout

/-! ## Tagged records -/

/-- The members that give a tag. -/
def tags (members : List (String × Json)) : List (String × Json) :=
  members.filter (·.1 = tagName)

/-- The members of a tagged record apart from its tag. -/
def untagged (members : List (String × Json)) : List (String × Json) :=
  members.filter (·.1 ≠ tagName)

theorem tags_cons_eq {m : String × Json} (h : m.1 = tagName) (rest : List (String × Json)) :
    tags (m :: rest) = m :: tags rest :=
  List.filter_cons_of_pos (decide_eq_true h)

theorem tags_cons_ne {m : String × Json} (h : m.1 ≠ tagName) (rest : List (String × Json)) :
    tags (m :: rest) = tags rest :=
  List.filter_cons_of_neg (by simpa using h)

theorem untagged_cons_eq {m : String × Json} (h : m.1 = tagName) (rest : List (String × Json)) :
    untagged (m :: rest) = untagged rest :=
  List.filter_cons_of_neg (by simpa using h)

theorem untagged_cons_ne {m : String × Json} (h : m.1 ≠ tagName) (rest : List (String × Json)) :
    untagged (m :: rest) = m :: untagged rest :=
  List.filter_cons_of_pos (decide_eq_true h)

theorem decodeMembers_untagged {fs : List Field} (slots : Slots fs)
    (members : List (String × Json)) :
    decodeMembers (some tagName) fs slots members =
      decodeMembers none fs slots (untagged members) := by
  induction members generalizing slots with
  | nil => rfl
  | cons m rest ih =>
    by_cases hm : m.1 = tagName
    · have hpass : decodeMembers (some tagName) fs slots (m :: rest) =
          decodeMembers (some tagName) fs slots rest := if_pos (congrArg some hm.symm)
      rw [hpass, untagged_cons_eq hm, ih]
    · have htake : decodeMembers (some tagName) fs slots (m :: rest) =
          (do decodeMembers (some tagName) fs (← decodeMember fs m slots) rest) :=
        if_neg fun h => hm (Option.some.inj h).symm
      rw [htake, untagged_cons_ne hm, decodeMembers_cons]
      exact congrArg _ (funext fun slots => ih slots)

theorem decode_union (k : UnionKind) (members : List (String × Json)) :
    decode (.union k) (.object members) =
      (do (← decodeTagOf k.layouts none members).ofMembers (untagged members)) := by
  unfold decode Layout.ofMembers
  simp only [decodeMembers_untagged]

section Tag

variable {α : Type} {options : List (String × α)} {a a' : α} {m : String × Json}
  {members : List (String × Json)}

theorem decodeTagOf_tag (h : m.1 = tagName) :
    decodeTagOf options none (m :: members) =
      (do decodeTagOf options (some (← decodeTag options m.2)) members) :=
  if_pos h

theorem decodeTagOf_twice (h : m.1 = tagName) :
    decodeTagOf options (some a) (m :: members) = .error (.duplicateField tagName) :=
  if_pos h

theorem decodeTagOf_other (h : m.1 ≠ tagName) (tag : Option α) :
    decodeTagOf options tag (m :: members) = decodeTagOf options tag members := by
  cases tag <;> exact if_neg h

theorem decodeTagOf_some_eq_ok_iff :
    decodeTagOf options (some a) members = .ok a' ↔ tags members = [] ∧ a = a' := by
  induction members with
  | nil => exact ⟨fun h => ⟨rfl, Except.ok.inj h⟩, fun h => congrArg _ h.2⟩
  | cons m rest ih =>
    by_cases hm : m.1 = tagName
    · rw [decodeTagOf_twice hm, tags_cons_eq hm]
      simp
    · rw [decodeTagOf_other hm, tags_cons_ne hm]
      exact ih

/-- **The tag** is the only member of its name. -/
theorem decodeTagOf_eq_ok_iff :
    decodeTagOf options none members = .ok a ↔
      ∃ j, tags members = [(tagName, j)] ∧ decodeTag options j = .ok a := by
  induction members with
  | nil =>
    constructor
    · intro h
      cases h
    · rintro ⟨j, htags, -⟩
      cases htags
  | cons m rest ih =>
    obtain ⟨name, j⟩ := m
    by_cases hname : name = tagName
    · rw [decodeTagOf_tag hname, tags_cons_eq hname]
      constructor
      · intro h
        obtain ⟨a', ha', h⟩ := bind_eq_ok_iff.1 h
        obtain ⟨hrest, rfl⟩ := decodeTagOf_some_eq_ok_iff.1 h
        exact ⟨j, by rw [hrest, hname], ha'⟩
      · rintro ⟨j', htags, ha⟩
        obtain ⟨hm, hrest⟩ := List.cons.inj htags
        cases hm
        rw [ha]
        exact decodeTagOf_some_eq_ok_iff.2 ⟨hrest, rfl⟩
    · rw [decodeTagOf_other hname, tags_cons_ne hname]
      exact ih

end Tag

/-- **A tagged record** is a record of the layout that its tag names. -/
theorem decode_union_eq_ok_iff {k : UnionKind} {members : List (String × Json)} {v : k.Value} :
    decode (.union k) (.object members) = .ok v ↔
      ∃ j layout, tags members = [(tagName, j)] ∧ decodeTag k.layouts j = .ok layout ∧
        layout.ofMembers (untagged members) = .ok v := by
  rw [decode_union]
  constructor
  · intro h
    obtain ⟨layout, hlayout, hv⟩ := bind_eq_ok_iff.1 h
    obtain ⟨j, htags, hj⟩ := decodeTagOf_eq_ok_iff.1 hlayout
    exact ⟨j, layout, htags, hj, hv⟩
  · rintro ⟨j, layout, htags, hj, hv⟩
    rw [decodeTagOf_eq_ok_iff.2 ⟨j, htags, hj⟩]
    exact hv

/-! ## Members in the order of the fields -/

/-- **Members in the order of the fields**, where fields that can do without a value may be left
out. What the members hold has the property `P`. -/
inductive Fills (P : Shape → Json → Prop) :
    (fs : List Field) → List (String × Json) → Values fs → Prop where
  | nil : Fills P [] [] ()
  | given {f : Field} {fs : List Field} {j : Json} {members : List (String × Json)} {v : f.Value}
    {values : Values fs} (h : f.receive (.ok (isNull j)) (decode f.shape j) = .ok v)
    (hp : P f.shape j) (rest : Fills P fs members values) :
    Fills P (f :: fs) ((f.name, j) :: members) (v, values)
  | absent {f : Field} {fs : List Field} {members : List (String × Json)} {v : f.Value}
    {values : Values fs} (h : f.absent? = some v) (rest : Fills P fs members values) :
    Fills P (f :: fs) members (v, values)

section

variable {P : Shape → Json → Prop} {fs : List Field} {members : List (String × Json)}
  {values : Values fs}

theorem Fills.name_mem (h : Fills P fs members values) {m : String × Json} (hm : m ∈ members) :
    m.1 ∈ fs.map Field.name := by
  induction h with
  | nil => cases hm
  | given h hp rest ih =>
    obtain rfl | hm := List.mem_cons.1 hm
    · exact List.mem_cons_self
    · exact List.mem_cons_of_mem _ (ih hm)
  | absent h rest ih => exact List.mem_cons_of_mem _ (ih hm)

/-- Every member holds what its field asks for. -/
theorem Fills.exists_fieldOf (h : Fills P fs members values) (hnodup : (fs.map Field.name).Nodup)
    {m : String × Json} (hm : m ∈ members) : ∃ f, fieldOf fs m.1 = some f ∧ P f.shape m.2 := by
  induction h with
  | nil => cases hm
  | @given f fs j members v values h hp rest ih =>
    obtain ⟨hf, hfs⟩ := List.nodup_cons.1 hnodup
    obtain rfl | hm := List.mem_cons.1 hm
    · exact ⟨f, fieldOf_cons_eq rfl, hp⟩
    · rw [fieldOf_cons_ne fun heq => hf (heq ▸ rest.name_mem hm)]
      exact ih hfs hm
  | @absent f fs members v values h rest ih =>
    obtain ⟨hf, hfs⟩ := List.nodup_cons.1 hnodup
    rw [fieldOf_cons_ne fun heq => hf (heq ▸ rest.name_mem hm)]
    exact ih hfs hm

theorem Fills.of_fieldOf (h : Fills P fs members values) (hnodup : (fs.map Field.name).Nodup)
    {m : String × Json} (hm : m ∈ members) {f : Field} (hf : fieldOf fs m.1 = some f) :
    P f.shape m.2 := by
  obtain ⟨f', hf', hp⟩ := h.exists_fieldOf hnodup hm
  rw [hf] at hf'
  cases hf'
  exact hp

/-- Members with other names leave the first field as it is. -/
theorem decodeMembers_cons_other {f : Field}
    (h : ∀ m ∈ members, f.name ≠ m.1) {slot : Option f.Value} {slots slots' : Slots fs}
    (hslots : decodeMembers none fs slots members = .ok slots') :
    decodeMembers none (f :: fs) (slot, slots) members = .ok (slot, slots') := by
  induction members generalizing slots with
  | nil =>
    cases hslots
    rfl
  | cons m rest ih =>
    obtain ⟨slots₁, hm, hrest⟩ := exists_of_decodeMembers_cons hslots
    rw [decodeMembers_cons, decodeMember_cons_eq_ok_iff.2
      (.inr ⟨h m List.mem_cons_self, slots₁, hm, rfl⟩)]
    exact ih (fun m' hm' => h m' (List.mem_cons_of_mem _ hm')) hrest

theorem finishFields_cons {f : Field} {slot : Option f.Value} {slots : Slots fs} {v : f.Value}
    (hv : slot.or f.absent? = some v) (hvalues : finishFields fs slots = .ok values) :
    finishFields (f :: fs) (slot, slots) = .ok (v, values) := by
  have hfinish : Slots.finish fs slots = .ok values := by
    unfold finishFields at hvalues
    split at hvalues
    · cases hvalues
      assumption
    · cases hvalues
  unfold finishFields Slots.finish
  rw [hv, hfinish]
  rfl

theorem Fills.decodeMembers (h : Fills P fs members values) (hnodup : (fs.map Field.name).Nodup) :
    ∃ slots, decodeMembers none fs (Slots.empty fs) members = .ok slots ∧
      finishFields fs slots = .ok values := by
  induction h with
  | nil => exact ⟨(), rfl, rfl⟩
  | @given f fs j members v values h hp rest ih =>
    obtain ⟨hf, hfs⟩ := List.nodup_cons.1 hnodup
    obtain ⟨slots, hslots, hvalues⟩ := ih hfs
    have hm : decodeMember (f :: fs) (f.name, j) (none, Slots.empty fs) =
        .ok (some v, Slots.empty fs) :=
      decodeMember_cons_eq_ok_iff.2 (.inl ⟨rfl, rfl, v, h, rfl⟩)
    refine ⟨(some v, slots), ?_, finishFields_cons rfl hvalues⟩
    show Schema.decodeMembers none (f :: fs) (none, Slots.empty fs) _ = _
    rw [decodeMembers_cons, hm]
    exact decodeMembers_cons_other (fun m hm heq => hf (heq ▸ rest.name_mem hm)) hslots
  | @absent f fs members v values h rest ih =>
    obtain ⟨hf, hfs⟩ := List.nodup_cons.1 hnodup
    obtain ⟨slots, hslots, hvalues⟩ := ih hfs
    exact ⟨(none, slots),
      decodeMembers_cons_other (fun m hm heq => hf (heq ▸ rest.name_mem hm)) hslots,
      finishFields_cons h hvalues⟩

end

theorem RecordKind.nodup_layout (k : RecordKind) : (k.layout.fields.map Field.name).Nodup := by
  cases k <;> decide

theorem UnionKind.nodup_layouts (k : UnionKind) :
    ∀ p ∈ k.layouts, (tagName :: p.2.fields.map Field.name).Nodup := by
  cases k <;> decide

theorem UnionKind.nodup_of_lookup {k : UnionKind} {tag : String} {layout : Layout k.Value}
    (h : k.layouts.lookup tag = some layout) : (tagName :: layout.fields.map Field.name).Nodup := by
  obtain ⟨before, after, hlayouts, -⟩ := List.lookup_eq_some_iff.1 h
  refine k.nodup_layouts (tag, layout) ?_
  rw [hlayouts]
  exact List.mem_append_right _ List.mem_cons_self

section

variable {P : Shape → Json → Prop} {members : List (String × Json)}

theorem Fills.ofMembers {α : Type} {layout : Layout α} {values : Values layout.fields}
    (h : Fills P layout.fields members values) (hnodup : (layout.fields.map Field.name).Nodup) :
    layout.ofMembers members = .ok (Curried.apply _ layout.build values) := by
  obtain ⟨slots, hslots, hvalues⟩ := h.decodeMembers hnodup
  exact Layout.ofMembers_eq_ok_iff.2 ⟨slots, hslots, values, hvalues, rfl⟩

/-- **Records.** Members in the order of the fields make up the record. -/
theorem Fills.decode_record {k : RecordKind} {values : Values k.layout.fields}
    (h : Fills P k.layout.fields members values) :
    decode (.record k) (.object members) = .ok (Curried.apply _ k.layout.build values) :=
  h.ofMembers k.nodup_layout

/-- **Tagged records.** A tag, and members in the order of the fields of its layout. -/
theorem Fills.decode_union {k : UnionKind} {tag : String} {layout : Layout k.Value}
    {values : Values layout.fields} (hlayout : k.layouts.lookup tag = some layout)
    (h : Fills P layout.fields members values) :
    decode (.union k) (.object ((tagName, .string tag) :: members)) =
      .ok (Curried.apply _ layout.build values) := by
  obtain ⟨htag, hnodup⟩ := List.nodup_cons.1 (UnionKind.nodup_of_lookup hlayout)
  have hne : ∀ m ∈ members, m.1 ≠ tagName := fun m hm heq => htag (heq ▸ h.name_mem hm)
  refine decode_union_eq_ok_iff.2 ⟨.string tag, layout, ?_, ?_, ?_⟩
  · rw [tags_cons_eq rfl, tags, List.filter_eq_nil_iff.2 (by simpa using hne)]
  · show choose k.layouts tag = _
    rw [choose, hlayout]
  · rw [untagged_cons_eq rfl, untagged, List.filter_eq_self.2 (by simpa using hne)]
    exact h.ofMembers hnodup

end

end Pagewright.Schema
