import Pagewright.Proofs.Schema.Edits
import Pagewright.Schema.Read

/-!
# Reading a shape and decoding it

A value of a shape can be read straight from its text, or read as JSON and decoded afterwards. Where
the value is written as documents are, the two agree: what decoding finds is what the reader of the
text finds. Records are followed member by member, each filling the same field in both; a tagged
record is decoded once its tag has been taken out.
-/

namespace Pagewright.Schema

open Json (Readable IsScalar IsExtra Reader rereadMembers)
open Json.Reader

/-! ## Values without parts -/

section Scalars

variable {α : Type} {level : Nat} {s : Shape} {j : Json} {after : List Char}

theorem startOfValue_bind {f : Char → Reader α} {c : Char} {text : List Char} {a : α}
    (hc : Opens c) (h : (f c).Reads (c :: text) after a) :
    (startOfValue >>= f).Reads (c :: text) after a := by
  have hstart : startOfValue.Reads [] (c :: text ++ after) c :=
    Reads.gap_bind (hc.starts _) (hc.noGap _) (reads_pure _ _)
  exact Reads.bind hstart h

theorem reads_readText (t : String) (after : List Char) :
    readText.Reads (Json.stringText t) after t :=
  startOfValue_bind (by decide) (reads_string t after)

theorem reads_readName {options : List (String × α)} {name : String} {a : α}
    (h : choose options name = .ok a) (after : List Char) :
    (readName options).Reads (Json.stringText name) after a := by
  refine startOfValue_bind (by decide) (Reads.placed ?_)
  refine Reads.bind_last (reads_string name after) ?_
  rw [h]
  exact reads_pure _ _

theorem reads_readChoice {kind : ChoiceKind} {levels : Bool} {name : String} {v : kind.Value}
    (h : choose kind.options name = .ok v) (after : List Char) :
    (readChoice kind levels).Reads (Json.stringText name) after v :=
  startOfValue_bind (by decide) (reads_readName h after)

theorem reads_readPlain (hj : Readable level j) (hscalar : j.IsScalar) {v : s.Value}
    (hv : decode s j.reread = .ok v) (hafter : Ends after) :
    (readOver.readPlain s).Reads j.chars after v := by
  obtain ⟨c, hc⟩ := exists_leads hj hscalar
  have hreads := hc.reads hafter
  obtain ⟨rest, hrest⟩ := hc.chars
  rw [hrest] at hreads ⊢
  refine startOfValue_bind hc.opens (Reads.placed ?_)
  split
  · exact absurd rfl hc.bracket
  · exact absurd rfl hc.brace
  · refine Reads.bind_last hreads ?_
    show (judged (decode s j.reread)).Reads [] after v
    rw [hv]
    exact reads_pure _ _

/-- **Values without parts** are read as they are decoded, whatever may be opened. -/
theorem reads_readOver_scalar (inner : Option Inner) (hj : Readable level j) (hscalar : j.IsScalar)
    {v : s.Value} (hv : decode s j.reread = .ok v) (hafter : Ends after) :
    (readOver inner s).Reads j.chars after v := by
  cases s with
  | flag | number | byte => exact reads_readPlain hj hscalar hv hafter
  | text =>
    cases j with
    | string t =>
      cases hv
      exact reads_readText _ after
    | null | bool | integer | float => cases hv
    | array | object => exact hscalar.elim
  | choice kind =>
    cases j with
    | string name => exact reads_readChoice hv after
    | null | bool | integer | float => cases hv
    | array | object => exact hscalar.elim
  | list | record | union =>
    cases j with
    | null | bool | integer | float | string => cases hv
    | array | object => exact hscalar.elim

theorem reads_nullIsNext (after : List Char) : nullIsNext.Reads Json.null.chars after true :=
  Reads.gap_bind (fun c hc => by cases hc; decide) (fun c hc => by cases hc; decide)
    (Reads.bind_last (Reads.take_bind (by decide) (reads_word (Json.isAscii_of_all rfl) after))
      (reads_pure _ _))

theorem reads_nullIsNext_of_ne {c : Char} (hc : Opens c) (hne : c ≠ 'n') (rest : List Char) :
    nullIsNext.Reads [] (c :: rest) false := by
  refine Reads.gap_bind (hc.starts rest) (hc.noGap rest) ?_
  split
  · rename_i h
    cases h
    exact absurd rfl hne
  · exact reads_pure _ _

theorem isNull_reread (j : Json) : isNull j.reread = isNull j := by
  cases j <;> rfl

theorem isNull_of_ne (h : j ≠ .null) : isNull j = false := by
  cases j with
  | null => exact absurd rfl h
  | bool | integer | float | string | array | object => rfl

/-- A field takes from the text what it takes from the value. -/
theorem reads_receive {f : Field} {r : Reader f.shape.Value} (hj : Readable level j) {v : f.Value}
    (hv : f.receive (.ok (isNull j.reread)) (decode f.shape j.reread) = .ok v)
    (h : ∀ w, decode f.shape j.reread = .ok w → r.Reads j.chars after w) :
    (f.receive nullIsNext r).Reads j.chars after v := by
  obtain ⟨name, shape, presence⟩ := f
  cases presence with
  | required => exact h v hv
  | default value => exact h v hv
  | optional =>
    obtain ⟨c, rest, hchars, hc, hnull⟩ := exists_head_chars hj
    by_cases hn : j = .null
    · subst hn
      cases hv
      exact Reads.bind_last (reads_nullIsNext after) (reads_pure _ _)
    · have hnext : nullIsNext.Reads [] (j.chars ++ after) false := by
        rw [hchars]
        exact reads_nullIsNext_of_ne hc (fun h => hn (hnull h)) _
      rw [isNull_reread, isNull_of_ne hn] at hv
      obtain ⟨w, hw, hv⟩ := bind_eq_ok_iff.1
        (show (do return some (← decode shape j.reread) : Except Json.Problem _) = .ok v from hv)
      cases hv
      exact Reads.bind hnext (Reads.bind_last (h w hw) (reads_pure _ _))

end Scalars

/-! ## Fields -/

/-- Filling a field follows what the member does to it. -/
theorem reads_fill {fs : List Field} {m : String × Json} {slots slots' : Slots fs}
    {value : (f : Field) → Reader f.Value} {twice other : Reader Unit} {text after : List Char}
    (h : decodeMember fs m slots = .ok slots')
    (hvalue : ∀ f v, fieldOf fs m.1 = some f →
      f.receive (.ok (isNull m.2)) (decode f.shape m.2) = .ok v → (value f).Reads text after v)
    (hother : fieldOf fs m.1 = none → other.Reads text after ()) :
    (Slots.fill m.1 value twice other fs slots).Reads text after slots' := by
  induction fs with
  | nil =>
    cases h
    exact Reads.bind_last (hother rfl) (reads_pure _ _)
  | cons f fs ih =>
    obtain ⟨slot, slots⟩ := slots
    obtain ⟨hname, rfl, v, hv, rfl⟩ | ⟨hname, slots', hslots', rfl⟩ :=
      decodeMember_cons_eq_ok_iff.1 h
    · rw [Slots.fill_found hname]
      exact Reads.bind_last (hvalue f v (fieldOf_cons_eq hname) hv) (reads_pure _ _)
    · rw [fieldOf_cons_ne hname] at hvalue hother
      rw [Slots.fill_other hname]
      exact Reads.bind_last (ih hslots' hvalue hother) (reads_pure _ _)

/-! ## Records -/

/-- The readers of what stands one level deeper agree with decoding. -/
structure Inner.Agrees (inner : Inner) (level : Nat) : Prop where
  shape : ∀ {s : Shape} {j : Json} {v : s.Value}, Readable level j → Plain s j →
    decode s j.reread = .ok v → ReadsBack (inner.shape s) j v
  json : ∀ {j : Json}, Readable level j → ReadsBack inner.json j j.reread

section Parts

variable {α : Type} {inner : Inner} {level : Nat}

theorem reads_readMembers (hinner : inner.Agrees level) {fs : List Field}
    {ms : List (String × Json)} (hms : ∀ m ∈ ms, Readable level m.2)
    (hplain : ∀ m ∈ ms, ∀ f, fieldOf fs m.1 = some f → Plain f.shape m.2)
    (hextra : ∀ m ∈ ms, fieldOf fs m.1 = none → m.2.IsExtra) (after : List Char) :
    ∀ {slots slots' : Slots fs} {first : Bool} {fuel : Nat}, ms.length < fuel →
      decodeMembers none fs slots (rereadMembers ms) = .ok slots' →
      (readMembers inner fs slots first fuel).Reads (membersFrom first ms) ('\x7d' :: after)
        slots' := by
  induction ms with
  | nil =>
    intro slots slots' first fuel hfuel hslots
    obtain ⟨fuel, rfl⟩ := Nat.exists_eq_succ_of_ne_zero (Nat.ne_of_gt hfuel)
    cases hslots
    exact Reads.bind_last (reads_hasKey_end first after) (reads_pure _ _)
  | cons m ms ih =>
    intro slots slots' first fuel hfuel hslots
    obtain ⟨fuel, rfl⟩ := Nat.exists_eq_succ_of_ne_zero (Nat.ne_of_gt (Nat.zero_lt_of_lt hfuel))
    obtain ⟨slots₁, hm, hrest⟩ := exists_of_decodeMembers_cons hslots
    rw [membersFrom, memberText, List.append_assoc]
    refine reads_member (Reads.bind (reads_fill (m := (m.1, m.2.reread)) hm ?_ ?_) ?_)
    · intro f v hf hv
      have hj := hms m List.mem_cons_self
      refine Reads.cons_bind (reads_colon _) (reads_receive hj hv fun w hw => ?_)
      exact (hinner.shape hj (hplain m List.mem_cons_self f hf) hw).reads
        (ends_membersFrom ms after)
    · intro hf
      exact Reads.cons_bind (reads_colon _) (reads_skip (hextra m List.mem_cons_self hf) _)
    · exact ih (fun m hm => hms m (List.mem_cons_of_mem _ hm))
        (fun m hm => hplain m (List.mem_cons_of_mem _ hm))
        (fun m hm => hextra m (List.mem_cons_of_mem _ hm)) (Nat.lt_of_succ_lt_succ hfuel) hrest

/-- **Records** are read as they are decoded. -/
theorem reads_readRecord (hinner : inner.Agrees level) {layout : Layout α}
    {ms : List (String × Json)} (hms : ∀ m ∈ ms, Readable level m.2)
    (hplain : ∀ m ∈ ms, ∀ f, fieldOf layout.fields m.1 = some f → Plain f.shape m.2)
    (hextra : ∀ m ∈ ms, fieldOf layout.fields m.1 = none → m.2.IsExtra) {a : α}
    (ha : layout.ofMembers (rereadMembers ms) = .ok a) (after : List Char) :
    (readRecord layout (some inner)).Reads (Json.object ms).chars after a := by
  obtain ⟨slots, hslots, values, hvalues, rfl⟩ := Layout.ofMembers_eq_ok_iff.1 ha
  show (readRecord layout (some inner)).Reads
    ('\x7b' :: (Json.charsOfMembers ms ++ ['\x7d'])) after _
  refine startOfValue_bind (by decide) (Reads.placed (Reads.take_bind (by decide) ?_))
  refine Reads.bind_last (Reads.closing (reads_bound_members fun hfuel => ?_)
    (reads_endObject after)) (reads_pure _ _)
  refine Reads.bind_last (reads_readMembers hinner hms hplain hextra after hfuel hslots) ?_
  rw [hvalues]
  exact reads_pure _ _

/-! ## Tagged records -/

theorem reads_readTagged (hinner : inner.Agrees level) {options : List (String × α)}
    {ms : List (String × Json)} (hms : ∀ m ∈ ms, Readable level m.2)
    (hplain : ∀ m ∈ ms, m.1 = tagName → ∃ tag, m.2 = .string tag) {a : α} (after : List Char) :
    ∀ {tag : Option α} {first : Bool} {fuel : Nat}, ms.length < fuel →
      decodeTagOf options tag (rereadMembers ms) = .ok a →
      (readTagged options inner tag first fuel).Reads (membersFrom first ms) ('\x7d' :: after)
        (some a, untagged (rereadMembers ms)) := by
  induction ms with
  | nil =>
    intro tag first fuel hfuel ha
    obtain ⟨fuel, rfl⟩ := Nat.exists_eq_succ_of_ne_zero (Nat.ne_of_gt hfuel)
    cases tag with
    | none => cases ha
    | some a' =>
      cases ha
      exact Reads.bind_last (reads_hasKey_end first after) (reads_pure _ _)
  | cons m ms ih =>
    intro tag first fuel hfuel ha
    obtain ⟨fuel, rfl⟩ := Nat.exists_eq_succ_of_ne_zero (Nat.ne_of_gt (Nat.zero_lt_of_lt hfuel))
    have hrest := fun {tag} => @ih (fun m hm => hms m (List.mem_cons_of_mem _ hm))
      (fun m hm => hplain m (List.mem_cons_of_mem _ hm)) tag false fuel
      (Nat.lt_of_succ_lt_succ hfuel)
    obtain ⟨name, j⟩ := m
    rw [Json.rereadMembers_cons] at ha ⊢
    rw [membersFrom, memberText, List.append_assoc, List.cons_append]
    refine reads_member ?_
    by_cases hname : name = tagName
    · rw [if_pos hname, untagged_cons_eq hname]
      cases tag with
      | some a' =>
        rw [decodeTagOf_twice hname] at ha
        cases ha
      | none =>
        obtain ⟨tag, htag⟩ := hplain (name, j) List.mem_cons_self hname
        cases htag
        rw [decodeTagOf_tag hname] at ha
        obtain ⟨a', ha', ha⟩ := bind_eq_ok_iff.1 ha
        exact Reads.cons_bind (reads_colon _) (Reads.bind (reads_readName ha' _) (hrest ha))
    · rw [decodeTagOf_other hname] at ha
      rw [if_neg hname, untagged_cons_ne hname]
      refine Reads.cons_bind (reads_colon _) ?_
      refine Reads.bind ((hinner.json (hms (name, j) List.mem_cons_self)).reads
        (ends_membersFrom ms after)) ?_
      exact Reads.bind_last (hrest ha) (reads_pure _ _)

/-- **Tagged records** are read as they are decoded. -/
theorem reads_readUnion (hinner : inner.Agrees level) {title : String}
    {options : List (String × Layout α)} {ms : List (String × Json)}
    (hms : ∀ m ∈ ms, Readable level m.2)
    (hplain : ∀ m ∈ ms, m.1 = tagName → ∃ tag, m.2 = .string tag) {layout : Layout α} {a : α}
    (hlayout : decodeTagOf options none (rereadMembers ms) = .ok layout)
    (ha : layout.ofMembers (untagged (rereadMembers ms)) = .ok a) (after : List Char) :
    (readUnion title options (some inner)).Reads (Json.object ms).chars after a := by
  show (readUnion title options (some inner)).Reads
    ('\x7b' :: (Json.charsOfMembers ms ++ ['\x7d'])) after _
  refine startOfValue_bind (by decide)
    (Reads.bind_last (a := layout.ofMembers (untagged (rereadMembers ms))) (Reads.placed ?_) ?_)
  · refine Reads.take_bind (by decide)
      (Reads.closing (reads_bound_members fun hfuel => ?_) (reads_endObject after))
    exact Reads.bind_last (reads_readTagged hinner hms hplain after hfuel hlayout) (reads_pure _ _)
  · rw [ha]
    exact reads_pure _ _

end Parts

/-! ## Shapes -/

theorem reads_readOver {inner : Inner} {level : Nat} (hinner : inner.Agrees level) {s : Shape}
    {j : Json} {v : s.Value} (hj : Readable (level + 1) j) (hplain : Plain s j)
    (hv : decode s j.reread = .ok v) {after : List Char} (hafter : Ends after) :
    (readOver (some inner) s).Reads j.chars after v := by
  cases hplain with
  | scalar hscalar => exact reads_readOver_scalar _ hj hscalar hv hafter
  | @list item items hitems =>
    cases hj with
    | array hj =>
      show (readOver (some inner) (.list item)).Reads
        ('[' :: (Json.charsOfItems items ++ [']'])) after v
      refine startOfValue_bind (by decide) (Reads.placed (Reads.take_bind (by decide)
        (Reads.bound_bind (reads_list ?_ after))))
      rw [Json.reread_array] at hv
      have hvalues := decodeItems_eq_ok_iff.1 hv
      rw [List.forall₂_map_left_iff] at hvalues
      have hitems := (List.forall₂_and_left items _).2
        ⟨fun j hmem => And.intro (hj j hmem) (hitems j hmem), hvalues⟩
      exact hitems.imp fun j v h => hinner.shape h.1.1 h.1.2 h.2
  | record hknown hextra =>
    cases hj with
    | object hj =>
      rw [Json.reread_object] at hv
      exact reads_readRecord hinner hj hknown hextra hv after
  | union htag =>
    cases hj with
    | object hj =>
      rw [Json.reread_object, decode_union] at hv
      obtain ⟨layout, hlayout, hv⟩ := bind_eq_ok_iff.1 hv
      exact reads_readUnion hinner hj htag hlayout hv after

theorem agrees_read (level : Nat) : Inner.Agrees ⟨read level, Json.Reader.value level⟩ level := by
  induction level with
  | zero =>
    exact ⟨fun hj _ hv => readsBack_of_readable hj (reads_readOver_scalar none hj hj.isScalar hv),
      readsBack_value⟩
  | succ level ih =>
    exact ⟨fun hj hplain hv => readsBack_of_readable hj (reads_readOver ih hj hplain hv),
      readsBack_value⟩

/-- **Reading agrees with decoding.** What a legible value stands for is what is read from its
text. -/
theorem Legible.readsBack {level : Nat} {s : Shape} {j : Json} {v : s.Value}
    (h : Legible level s j v) : ReadsBack (read level s) j v :=
  (agrees_read level).shape h.readable h.plain h.decode

end Pagewright.Schema
