import Mathlib.Logic.Relation
import Pagewright.Proofs.Json.Values
import Pagewright.Proofs.Schema.Decoding

/-!
# Edits that leave the meaning alone

A JSON value may be rearranged without a reader of its shape noticing: the members of an object may
change places, and an object may get members with names that mean nothing there. An edit is one such
change, anywhere inside the value. Whatever the value stood for before an edit it stands for after
it, and an edit does not make a value harder to read.
-/

namespace Pagewright.Schema

open Json (Readable IsScalar IsExtra)

/-! ## Edits -/

/-- The fields that the members of an object may name. Those of a tagged record depend on its
tag. -/
inductive Expects : Shape → List (String × Json) → List Field → Prop where
  | record (k : RecordKind) (members : List (String × Json)) :
    Expects (.record k) members k.layout.fields
  | union {k : UnionKind} {tag : String} {layout : Layout k.Value}
    {members : List (String × Json)} (htag : (tagName, .string tag) ∈ members)
    (hlayout : k.layouts.lookup tag = some layout) : Expects (.union k) members layout.fields

/-- The names that mean something in an object with these fields. -/
def Shape.names (s : Shape) (fs : List Field) : List String :=
  match s with
  | .union _ => tagName :: fs.map Field.name
  | _ => fs.map Field.name

/-- **An edit** of a value of a shape: members of an object change places, or a member is added
under a name that means nothing. -/
inductive Edit : Shape → Json → Json → Prop where
  | reorder {s : Shape} {members members' : List (String × Json)} (h : members.Perm members') :
    Edit s (.object members) (.object members')
  | add {s : Shape} {before after : List (String × Json)} {fs : List Field} {name : String}
    {j : Json} (hfields : Expects s (before ++ after) fs) (hname : name ∉ s.names fs)
    (hj : j.IsExtra) :
    Edit s (.object (before ++ after)) (.object (before ++ (name, j) :: after))
  | item {s : Shape} {before after : List Json} {j j' : Json} (h : Edit s j j') :
    Edit (.list s) (.array (before ++ j :: after)) (.array (before ++ j' :: after))
  | member {s : Shape} {before after : List (String × Json)} {fs : List Field} {f : Field}
    {name : String} {j j' : Json} (hfields : Expects s (before ++ (name, j) :: after) fs)
    (hname : fieldOf fs name = some f) (h : Edit f.shape j j') :
    Edit s (.object (before ++ (name, j) :: after)) (.object (before ++ (name, j') :: after))

variable {s : Shape} {j j' : Json}

theorem fieldOf_eq_none_iff {fs : List Field} {name : String} :
    fieldOf fs name = none ↔ name ∉ fs.map Field.name := by
  unfold fieldOf
  rw [List.find?_eq_none]
  simp

theorem Shape.names_subset (s : Shape) (fs : List Field) : fs.map Field.name ⊆ s.names fs := by
  unfold Shape.names
  split
  · exact List.subset_cons_self _ _
  · exact List.Subset.refl _

theorem Edit.isNull (h : Edit s j j') : isNull j = false ∧ isNull j' = false := by
  cases h <;> exact ⟨rfl, rfl⟩

/-! ## What the value stands for -/

/-- A field makes the same of two values that stand for the same, if neither is null. -/
theorem Field.receive_congr {f : Field} (hj : Schema.isNull j = false)
    (hj' : Schema.isNull j' = false)
    (h : ∀ v, decode f.shape j = .ok v → decode f.shape j' = .ok v) {v : f.Value}
    (hv : f.receive (.ok (Schema.isNull j)) (decode f.shape j) = .ok v) :
    f.receive (.ok (Schema.isNull j')) (decode f.shape j') = .ok v := by
  rw [hj] at hv
  rw [hj']
  obtain ⟨name, shape, presence⟩ := f
  cases presence with
  | required => exact h v hv
  | default value => exact h v hv
  | optional =>
    have hsome : (do return some (← decode shape j) : Except Json.Problem _) = .ok v := hv
    obtain ⟨w, hw, hv⟩ := bind_eq_ok_iff.1 hsome
    show (do return some (← decode shape j') : Except Json.Problem _) = .ok v
    rw [h w hw]
    exact hv

/-- An item may be replaced by one that stands for the same. -/
theorem decodeItems_congr {before after : List Json}
    (h : ∀ v, decode s j = .ok v → decode s j' = .ok v) {values : List s.Value}
    (hvalues : decodeItems s (before ++ j :: after) = .ok values) :
    decodeItems s (before ++ j' :: after) = .ok values := by
  rw [decodeItems_eq_ok_iff] at hvalues ⊢
  induction before generalizing values with
  | nil =>
    obtain ⟨v, vs, hv, hrest, rfl⟩ := List.forall₂_cons_left_iff.1 hvalues
    exact .cons (h v hv) hrest
  | cons first before ih =>
    obtain ⟨v, vs, hv, hrest, rfl⟩ := List.forall₂_cons_left_iff.1 hvalues
    exact .cons hv (ih hrest)

theorem decode_reorder {members members' : List (String × Json)} (h : members.Perm members')
    {v : s.Value} (hv : decode s (.object members) = .ok v) :
    decode s (.object members') = .ok v := by
  cases s with
  | text | flag | number | byte | list => cases hv
  | choice kind =>
    -- an object stands for a choice only if it has a single member
    match members, h, hv with
    | [m], h, hv => 
      rw [List.singleton_perm.1 h] at hv
      exact hv
    | [], h, hv => cases hv
    | _ :: _ :: _, h, hv => cases hv
  | record k => exact Layout.ofMembers_perm h hv
  | union k =>
    obtain ⟨j, layout, htags, hj, hv⟩ := decode_union_eq_ok_iff.1 hv
    refine decode_union_eq_ok_iff.2 ⟨j, layout, ?_, hj, Layout.ofMembers_perm (h.filter _) hv⟩
    exact List.perm_singleton.1 (htags ▸ (h.filter _).symm)

theorem tags_append_cons {before after : List (String × Json)} {m : String × Json}
    (hm : m.1 ≠ tagName) : tags (before ++ m :: after) = tags (before ++ after) := by
  unfold tags
  rw [List.filter_append, List.filter_append, List.filter_cons_of_neg (by simpa using hm)]

theorem untagged_append_cons {before after : List (String × Json)} {m : String × Json}
    (hm : m.1 ≠ tagName) :
    untagged (before ++ m :: after) = untagged before ++ m :: untagged after := by
  unfold untagged
  rw [List.filter_append, List.filter_cons_of_pos (by simpa using hm)]

/-- What the members name is what the tag says. -/
theorem eq_of_tags {α : Type} {options : List (String × Layout α)}
    {members : List (String × Json)} {tag : String} {layout layout' : Layout α} {j : Json}
    (htag : (tagName, .string tag) ∈ members) (hlayout : options.lookup tag = some layout)
    (htags : tags members = [(tagName, j)]) (hj : decodeTag options j = .ok layout') :
    layout' = layout := by
  have hmem : (tagName, Json.string tag) ∈ tags members :=
    List.mem_filter.2 ⟨htag, decide_eq_true rfl⟩
  rw [htags, List.mem_singleton] at hmem
  cases hmem
  have hchoose : choose options tag = .ok layout' := hj
  rw [choose, hlayout] at hchoose
  exact (Except.ok.inj hchoose).symm

theorem decode_add {before after : List (String × Json)} {fs : List Field} {m : String × Json}
    (hfields : Expects s (before ++ after) fs) (hname : m.1 ∉ s.names fs) {v : s.Value}
    (hv : decode s (.object (before ++ after)) = .ok v) :
    decode s (.object (before ++ m :: after)) = .ok v := by
  have hfield : fieldOf fs m.1 = none :=
    fieldOf_eq_none_iff.2 fun h => hname (s.names_subset fs h)
  cases hfields with
  | record k => exact Layout.ofMembers_add hfield hv
  | union htag hlayout =>
    have hm : m.1 ≠ tagName := fun h => hname (h ▸ List.mem_cons_self)
    obtain ⟨j, layout, htags, hj, hv⟩ := decode_union_eq_ok_iff.1 hv
    obtain rfl := eq_of_tags htag hlayout htags hj
    refine decode_union_eq_ok_iff.2 ⟨j, layout, (tags_append_cons hm).trans htags, hj, ?_⟩
    rw [untagged_append_cons hm]
    rw [untagged, List.filter_append] at hv
    exact Layout.ofMembers_add hfield hv

theorem mem_names_of_fieldOf {fs : List Field} {f : Field} {name : String}
    (h : fieldOf fs name = some f) : name ∈ fs.map Field.name := by
  by_contra hname
  rw [fieldOf_eq_none_iff.2 hname] at h
  cases h

/-- The name of a field is not that of the tag. -/
theorem ne_tagName_of_fieldOf {k : UnionKind} {tag : String} {layout : Layout k.Value}
    (hlayout : k.layouts.lookup tag = some layout) {f : Field} {name : String}
    (hname : fieldOf layout.fields name = some f) : name ≠ tagName := by
  rintro rfl
  exact (List.nodup_cons.1 (UnionKind.nodup_of_lookup hlayout)).1 (mem_names_of_fieldOf hname)

theorem decode_member {before after : List (String × Json)} {fs : List Field} {f : Field}
    {name : String} (hfields : Expects s (before ++ (name, j) :: after) fs)
    (hname : fieldOf fs name = some f)
    (h : ∀ v, f.receive (.ok (isNull j)) (decode f.shape j) = .ok v →
      f.receive (.ok (isNull j')) (decode f.shape j') = .ok v) {v : s.Value}
    (hv : decode s (.object (before ++ (name, j) :: after)) = .ok v) :
    decode s (.object (before ++ (name, j') :: after)) = .ok v := by
  have hfield : ∀ f' v, fieldOf fs name = some f' →
      f'.receive (.ok (isNull j)) (decode f'.shape j) = .ok v →
      f'.receive (.ok (isNull j')) (decode f'.shape j') = .ok v := by
    intro f' v hf'
    rw [hname] at hf'
    cases hf'
    exact h v
  cases hfields with
  | record k => exact Layout.ofMembers_congr hfield hv
  | union htag hlayout =>
    have hne := ne_tagName_of_fieldOf hlayout hname
    obtain ⟨jtag, layout, htags, hjtag, hv⟩ := decode_union_eq_ok_iff.1 hv
    obtain rfl := eq_of_tags htag hlayout htags hjtag
    rw [tags_append_cons hne] at htags
    refine decode_union_eq_ok_iff.2 ⟨jtag, layout, (tags_append_cons hne).trans htags, hjtag, ?_⟩
    rw [untagged_append_cons hne] at hv ⊢
    exact Layout.ofMembers_congr hfield hv

/-- **An edited value stands for the same.** -/
theorem Edit.decode (h : Edit s j j') {v : s.Value} (hv : decode s j = .ok v) :
    Schema.decode s j' = .ok v := by
  induction h with
  | reorder h => exact decode_reorder h hv
  | add hfields hname hj => exact decode_add hfields hname hv
  | item h ih => exact decodeItems_congr (fun v hv => ih hv) hv
  | member hfields hname h ih =>
    refine decode_member hfields hname (fun v hv => ?_) hv
    exact Field.receive_congr h.isNull.1 h.isNull.2 (fun v hv => ih hv) hv

/-! ## How the value is written -/

/-- The value is written as documents are: records as objects, tags by name, and nothing but
scalars where no field has a name for the member. -/
inductive Plain : Shape → Json → Prop where
  | scalar {s : Shape} {j : Json} (h : j.IsScalar) : Plain s j
  | list {s : Shape} {items : List Json} (h : ∀ j ∈ items, Plain s j) :
    Plain (.list s) (.array items)
  | record {k : RecordKind} {members : List (String × Json)}
    (h : ∀ m ∈ members, ∀ f, fieldOf k.layout.fields m.1 = some f → Plain f.shape m.2)
    (hextra : ∀ m ∈ members, fieldOf k.layout.fields m.1 = none → m.2.IsExtra) :
    Plain (.record k) (.object members)
  | union {k : UnionKind} {members : List (String × Json)}
    (h : ∀ m ∈ members, m.1 = tagName → ∃ tag, m.2 = .string tag) :
    Plain (.union k) (.object members)

theorem mem_append_cons_iff {α : Type} {a b : α} {before after : List α} :
    a ∈ before ++ b :: after ↔ a = b ∨ a ∈ before ++ after :=
  List.perm_middle.mem_iff.trans List.mem_cons

theorem Edit.plain (h : Edit s j j') (hj : Plain s j) : Plain s j' := by
  induction h with
  | reorder h =>
    cases hj with
    | scalar hj => exact hj.elim
    | record hknown hextra =>
      exact .record (fun m hm => hknown m (h.mem_iff.2 hm)) fun m hm => hextra m (h.mem_iff.2 hm)
    | union htag => exact .union fun m hm => htag m (h.mem_iff.2 hm)
  | @add s before after fs name j hfields hname hj' =>
    have hfield : fieldOf fs name = none :=
      fieldOf_eq_none_iff.2 fun h => hname (s.names_subset fs h)
    cases hj with
    | scalar hj => exact hj.elim
    | record hknown hextra =>
      cases hfields
      refine .record (fun m hm f hf => ?_) fun m hm hm' => ?_
      · obtain rfl | hm := mem_append_cons_iff.1 hm
        · rw [hfield] at hf
          cases hf
        · exact hknown m hm f hf
      · obtain rfl | hm := mem_append_cons_iff.1 hm
        · exact hj'
        · exact hextra m hm hm'
    | union htag =>
      refine .union fun m hm hm' => ?_
      obtain rfl | hm := mem_append_cons_iff.1 hm
      · exact absurd (List.mem_cons.2 (.inl hm')) hname
      · exact htag m hm hm'
  | item h ih =>
    cases hj with
    | scalar hj => exact hj.elim
    | list hitems =>
      refine .list fun j hj => ?_
      obtain rfl | hj := mem_append_cons_iff.1 hj
      · exact ih (hitems _ (mem_append_cons_iff.2 (.inl rfl)))
      · exact hitems j (mem_append_cons_iff.2 (.inr hj))
  | @member s before after fs f name j j' hfields hname h ih =>
    cases hj with
    | scalar hj => exact hj.elim
    | record hknown hextra =>
      cases hfields
      refine .record (fun m hm f' hf' => ?_) fun m hm hm' => ?_
      · obtain rfl | hm := mem_append_cons_iff.1 hm
        · rw [hname] at hf'
          cases hf'
          exact ih (hknown (name, j) (mem_append_cons_iff.2 (.inl rfl)) f hname)
        · exact hknown m (mem_append_cons_iff.2 (.inr hm)) f' hf'
      · obtain rfl | hm := mem_append_cons_iff.1 hm
        · rw [hname] at hm'
          cases hm'
        · exact hextra m (mem_append_cons_iff.2 (.inr hm)) hm'
    | union htag =>
      cases hfields with
      | union _ hlayout =>
        refine .union fun m hm hm' => ?_
        obtain rfl | hm := mem_append_cons_iff.1 hm
        · exact absurd hm' (ne_tagName_of_fieldOf hlayout hname)
        · exact htag m (mem_append_cons_iff.2 (.inr hm)) hm'

/-- An edited value is as easy to read. -/
theorem Edit.readable (h : Edit s j j') {level : Nat} (hj : Readable level j) :
    Readable level j' := by
  induction h generalizing level with
  | reorder h =>
    cases hj with
    | object hj => exact .object fun m hm => hj m (h.mem_iff.2 hm)
  | add hfields hname hextra =>
    cases hj with
    | object hj =>
      refine .object fun m hm => ?_
      obtain rfl | hm := mem_append_cons_iff.1 hm
      · exact hextra.readable _
      · exact hj m hm
  | item h ih =>
    cases hj with
    | array hj =>
      refine .array fun j hmem => ?_
      obtain rfl | hmem := mem_append_cons_iff.1 hmem
      · exact ih (hj _ (mem_append_cons_iff.2 (.inl rfl)))
      · exact hj j (mem_append_cons_iff.2 (.inr hmem))
  | member hfields hname h ih =>
    cases hj with
    | object hj =>
      refine .object fun m hm => ?_
      obtain rfl | hm := mem_append_cons_iff.1 hm
      · exact ih (hj _ (mem_append_cons_iff.2 (.inl rfl)))
      · exact hj m (mem_append_cons_iff.2 (.inr hm))

/-! ## How precisely the value is read -/

theorem rereadMembers_append_cons (before after : List (String × Json)) (name : String) (j : Json) :
    Json.rereadMembers (before ++ (name, j) :: after) =
      Json.rereadMembers before ++ (name, j.reread) :: Json.rereadMembers after :=
  List.map_append

theorem Expects.reread {members : List (String × Json)} {fs : List Field}
    (h : Expects s members fs) : Expects s (Json.rereadMembers members) fs := by
  cases h with
  | record k => exact .record k _
  | union htag hlayout => exact .union (List.mem_map.2 ⟨_, htag, rfl⟩) hlayout

/-- **An edit is an edit of what is read**, too. -/
theorem Edit.reread (h : Edit s j j') : Edit s j.reread j'.reread := by
  induction h with
  | reorder h =>
    rw [Json.reread_object, Json.reread_object]
    exact .reorder (h.map _)
  | add hfields hname hj =>
    have hfields' := hfields.reread
    rw [Json.reread_object, Json.reread_object, rereadMembers_append_cons, hj.reread]
    rw [Json.rereadMembers, List.map_append] at hfields' ⊢
    exact .add hfields' hname hj
  | @item _ before after j j' h ih =>
    rw [Json.reread_array, Json.reread_array, List.map_append, List.map_append]
    exact .item ih
  | member hfields hname h ih =>
    have hfields' := hfields.reread
    rw [Json.reread_object, Json.reread_object, rereadMembers_append_cons,
      rereadMembers_append_cons]
    rw [rereadMembers_append_cons] at hfields'
    exact .member hfields' hname ih

/-! ## Any number of edits -/

/-- The value is read as one that stands for `v`, and is written so that a reader with this many
levels to open can tell from the text. -/
structure Legible (level : Nat) (s : Shape) (j : Json) (v : s.Value) : Prop where
  readable : Readable level j
  plain : Plain s j
  decode : decode s j.reread = .ok v

theorem Edit.legible (h : Edit s j j') {level : Nat} {v : s.Value} (hj : Legible level s j v) :
    Legible level s j' v :=
  ⟨h.readable hj.readable, h.plain hj.plain, h.reread.decode hj.decode⟩

/-- **Edits keep a value legible**, however many there are. -/
theorem legible_of_edits (h : Relation.ReflTransGen (Edit s) j j') {level : Nat} {v : s.Value}
    (hj : Legible level s j v) : Legible level s j' v := by
  induction h with
  | refl => exact hj
  | tail _ hedit ih => exact hedit.legible ih

end Pagewright.Schema
