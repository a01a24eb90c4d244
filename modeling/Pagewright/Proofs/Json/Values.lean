import Pagewright.Proofs.Json.Precision

/-!
# Values read back

The text of a JSON value is read as that value, but for the precision of its decimals, provided
these are finite, its whole numbers have no more than 64 bits, and no more levels are open at once
than the reader allows. A reader is judged by what it makes of the text of a value, whatever ends
that value; the loops over the items of a list and the members of an object then only have to be
followed once.
-/

namespace Pagewright.Json

open Reader

/-! ## Values that can be read -/

/-- The value has a text that can be read with this many levels to open. -/
inductive Readable : Nat → Json → Prop where
  | null {level : Nat} : Readable level .null
  | bool {level : Nat} (b : Bool) : Readable level (.bool b)
  | integer {level : Nat} {i : Int} (h : Fits i) : Readable level (.integer i)
  | float {level : Nat} {x : Float} (h : x.isFinite) : Readable level (.float x)
  | string {level : Nat} (s : String) : Readable level (.string s)
  | array {level : Nat} {items : List Json} (h : ∀ j ∈ items, Readable level j) :
    Readable (level + 1) (.array items)
  | object {level : Nat} {members : List (String × Json)} (h : ∀ m ∈ members, Readable level m.2) :
    Readable (level + 1) (.object members)

/-- Every whole number in the value has no more than 64 bits, and every decimal is as required. -/
inductive Numbers (P : Float → Prop) : Json → Prop where
  | null : Numbers P .null
  | bool (b : Bool) : Numbers P (.bool b)
  | integer {i : Int} (h : Fits i) : Numbers P (.integer i)
  | float {x : Float} (h : P x) : Numbers P (.float x)
  | string (s : String) : Numbers P (.string s)
  | array {items : List Json} (h : ∀ j ∈ items, Numbers P j) : Numbers P (.array items)
  | object {members : List (String × Json)} (h : ∀ m ∈ members, Numbers P m.2) :
    Numbers P (.object members)

mutual

/-- How many levels of lists and objects are open at once in the text of a value. -/
def nesting : Json → Nat
  | .array items => nestingOfItems items + 1
  | .object members => nestingOfMembers members + 1
  | _ => 0

/-- The levels inside the items of a list. -/
def nestingOfItems : List Json → Nat
  | [] => 0
  | j :: rest => max (nesting j) (nestingOfItems rest)

/-- The levels inside the members of an object. -/
def nestingOfMembers : List (String × Json) → Nat
  | [] => 0
  | (_, j) :: rest => max (nesting j) (nestingOfMembers rest)

end

theorem nesting_le_nestingOfItems {items : List Json} {j : Json} (hj : j ∈ items) :
    nesting j ≤ nestingOfItems items := by
  induction hj with
  | head => exact Nat.le_max_left _ _
  | tail _ _ ih => exact ih.trans (Nat.le_max_right _ _)

theorem nesting_le_nestingOfMembers {members : List (String × Json)} {m : String × Json}
    (hm : m ∈ members) : nesting m.2 ≤ nestingOfMembers members := by
  induction hm with
  | head => exact Nat.le_max_left _ _
  | tail _ _ ih => exact ih.trans (Nat.le_max_right _ _)

theorem Numbers.readable {j : Json} (hj : Numbers (·.isFinite) j) {level : Nat}
    (hlevel : nesting j ≤ level) : Readable level j := by
  induction hj generalizing level with
  | null => exact .null
  | bool b => exact .bool b
  | integer h => exact .integer h
  | float h => exact .float h
  | string s => exact .string s
  | array h ih =>
    obtain ⟨level, rfl⟩ := Nat.exists_eq_succ_of_ne_zero (Nat.ne_of_gt (Nat.zero_lt_of_lt hlevel))
    exact .array fun j hj =>
      ih j hj ((nesting_le_nestingOfItems hj).trans (Nat.le_of_succ_le_succ hlevel))
  | object h ih =>
    obtain ⟨level, rfl⟩ := Nat.exists_eq_succ_of_ne_zero (Nat.ne_of_gt (Nat.zero_lt_of_lt hlevel))
    exact .object fun m hm =>
      ih m hm ((nesting_le_nestingOfMembers hm).trans (Nat.le_of_succ_le_succ hlevel))

mutual

/-- A value with each of its decimals replaced. -/
def mapFloats (f : Float → Float) : Json → Json
  | .float x => .float (f x)
  | .array items => .array (mapFloatsOfItems f items)
  | .object members => .object (mapFloatsOfMembers f members)
  | .null => .null
  | .bool b => .bool b
  | .integer i => .integer i
  | .string s => .string s

/-- The items of a list with their decimals replaced. -/
def mapFloatsOfItems (f : Float → Float) : List Json → List Json
  | [] => []
  | j :: rest => mapFloats f j :: mapFloatsOfItems f rest

/-- The members of an object with their decimals replaced. -/
def mapFloatsOfMembers (f : Float → Float) : List (String × Json) → List (String × Json)
  | [] => []
  | (name, j) :: rest => (name, mapFloats f j) :: mapFloatsOfMembers f rest

end

theorem mapFloatsOfItems_eq (f : Float → Float) (items : List Json) :
    mapFloatsOfItems f items = items.map (mapFloats f) := by
  induction items with
  | nil => rfl
  | cons j rest ih => rw [mapFloatsOfItems, ih, List.map_cons]

theorem mapFloatsOfMembers_eq (f : Float → Float) (members : List (String × Json)) :
    mapFloatsOfMembers f members = members.map fun m => (m.1, mapFloats f m.2) := by
  induction members with
  | nil => rfl
  | cons m rest ih => rw [mapFloatsOfMembers, ih, List.map_cons]

/-- Decimals that stay as they are may be replaced. -/
theorem Numbers.mapFloats_eq_self {f : Float → Float} {j : Json}
    (hj : Numbers (fun x => f x = x) j) : j.mapFloats f = j := by
  induction hj with
  | null => rfl
  | bool b => rfl
  | integer h => rfl
  | float h => exact congrArg Json.float h
  | string s => rfl
  | array h ih =>
    rw [mapFloats, mapFloatsOfItems_eq, List.map_congr_left ih, List.map_id']
  | object h ih =>
    rw [mapFloats, mapFloatsOfMembers_eq,
      List.map_congr_left fun m hm => congrArg (Prod.mk m.1) (ih m hm), List.map_id']

/-- **What a value is read as** once it has been written. -/
def reread (j : Json) : Json :=
  j.mapFloats rereadFloat

/-- The members of an object, each with what its value is read as. -/
def rereadMembers (members : List (String × Json)) : List (String × Json) :=
  members.map fun m => (m.1, m.2.reread)

theorem rereadMembers_cons (name : String) (j : Json) (rest : List (String × Json)) :
    rereadMembers ((name, j) :: rest) = (name, j.reread) :: rereadMembers rest :=
  rfl

theorem reread_array (items : List Json) :
    (Json.array items).reread = .array (items.map reread) :=
  congrArg Json.array (mapFloatsOfItems_eq _ items)

theorem reread_object (members : List (String × Json)) :
    (Json.object members).reread = .object (rereadMembers members) :=
  congrArg Json.object (mapFloatsOfMembers_eq _ members)

/-- The value has no parts. -/
def IsScalar : Json → Prop
  | .array _ | .object _ => False
  | _ => True

theorem Readable.isScalar {j : Json} (hj : Readable 0 j) : j.IsScalar := by
  cases hj <;> trivial

/-- The value is null, a boolean or a string. -/
def IsExtra : Json → Prop
  | .null | .bool _ | .string _ => True
  | _ => False

theorem IsExtra.reread {j : Json} (hj : j.IsExtra) : j.reread = j := by
  cases j with
  | null | bool | string => rfl
  | integer | float | array | object => exact hj.elim

theorem IsExtra.readable {j : Json} (hj : j.IsExtra) (level : Nat) : Readable level j := by
  cases j with
  | null => exact .null
  | bool b => exact .bool b
  | string s => exact .string s
  | integer | float | array | object => exact hj.elim

namespace Reader

/-- The characters that a value may start with. -/
def Opens (c : Char) : Prop :=
  c ∈ "ntf\"[\x7b-0123456789".toList

instance (c : Char) : Decidable (Opens c) :=
  inferInstanceAs (Decidable (c ∈ _))

theorem opens_of_isDigit {c : Char} (hc : c.isDigit) : Opens c := by
  have hleast : 48 ≤ c.toNat := (isDigit_iff.1 hc).1
  have hdigits : ∀ n < 10, Opens (Char.ofNat (48 + n)) := by decide
  have hopens := hdigits (c.toNat - 48) (digit_lt_ten hc)
  rwa [Nat.add_sub_cancel' hleast, Char.ofNat_toNat] at hopens

/-- What an opening character is not. -/
theorem Opens.spec {c : Char} (hc : Opens c) :
    IsAscii c ∧ Cursor.isGap c.toUInt8 = false ∧ c ≠ ']' ∧ c ≠ '\x7d' ∧ c ≠ ',' := by
  have h : "ntf\"[\x7b-0123456789".toList.all (fun c => IsAscii c ∧
      Cursor.isGap c.toUInt8 = false ∧ c ≠ ']' ∧ c ≠ '\x7d' ∧ c ≠ ',') = true := by decide
  exact of_decide_eq_true (List.all_eq_true.mp h c hc)

/-! ## Values without parts -/

theorem ne_of_isDigit {c c' : Char} (hc : c.isDigit) (hc' : c'.isDigit = false) : c ≠ c' := by
  rintro rfl
  rw [hc] at hc'
  cases hc'

theorem scalar?_of_isDigit {c : Char} (hc : c.isDigit) :
    scalar? c = number false >>= fun j => pure (some j) := by
  have hsome : (digit? c).isSome := by
    rw [digit?_of_isDigit hc]
    rfl
  unfold scalar?
  split
  case h_6 => exact if_pos hsome
  all_goals exact absurd rfl (ne_of_isDigit hc (by decide))

/-- The character that a value without parts starts with: it leads to the reader of the value. -/
structure Leads (c : Char) (j : Json) : Prop where
  chars : ∃ rest, j.chars = c :: rest
  opens : Opens c
  bracket : c ≠ '['
  brace : c ≠ '\x7b'
  null : c = 'n' → j = .null
  reads : ∀ {after : List Char}, Ends after → (scalar? c).Reads j.chars after (some j.reread)

theorem leads_digit {c : Char} (hc : c.isDigit) {rest : List Char} {j : Json}
    (hj : j.chars = c :: rest)
    (h : ∀ {after : List Char}, Ends after → (number false).Reads j.chars after j.reread) :
    Leads c j := by
  refine ⟨⟨rest, hj⟩, opens_of_isDigit hc, ne_of_isDigit hc (by decide),
    ne_of_isDigit hc (by decide), fun hnull => absurd hnull (ne_of_isDigit hc (by decide)),
    fun hafter => ?_⟩
  rw [scalar?_of_isDigit hc]
  exact Reads.bind_last (h hafter) (reads_pure _ _)

theorem leads_minus {text : List Char} {j : Json} (hj : j.chars = '-' :: text)
    (h : ∀ {after : List Char}, Ends after → (number true).Reads text after j.reread) :
    Leads '-' j := by
  refine ⟨⟨text, hj⟩, by decide, by decide, by decide, fun hnull => absurd hnull (by decide),
    fun hafter => ?_⟩
  rw [hj]
  exact Reads.take_bind (by decide) (Reads.bind_last (h hafter) (reads_pure _ _))

theorem leads_word {c : Char} {rest : List Char} {j : Json} (hj : j.chars = c :: rest)
    (hopens : Opens c ∧ c ≠ '[' ∧ c ≠ '\x7b') (hnull : c = 'n' → j = .null)
    (hrest : ∀ c ∈ rest, IsAscii c)
    (h : scalar? c = take >>= fun _ => word rest >>= fun _ => pure (some j.reread)) :
    Leads c j := by
  refine ⟨⟨rest, hj⟩, hopens.1, hopens.2.1, hopens.2.2, hnull, fun hafter => ?_⟩
  rw [hj, h]
  exact Reads.take_bind hopens.1.spec.1 (Reads.bind_last (reads_word hrest _) (reads_pure _ _))

/-- **Values without parts are read back** by what their first character leads to. -/
theorem exists_leads {level : Nat} {j : Json} (hj : Readable level j) (hscalar : j.IsScalar) :
    ∃ c, Leads c j := by
  cases hj with
  | null => exact ⟨'n', leads_word rfl (by decide) (fun _ => rfl) (isAscii_of_all rfl) rfl⟩
  | bool b =>
    cases b with
    | true =>
      exact ⟨'t', leads_word rfl (by decide) (fun h => absurd h (by decide)) (isAscii_of_all rfl)
        rfl⟩
    | false =>
      exact ⟨'f', leads_word rfl (by decide) (fun h => absurd h (by decide)) (isAscii_of_all rfl)
        rfl⟩
  | @integer _ i hi =>
    by_cases hneg : i < 0
    · refine ⟨'-', leads_minus (toList_toString_of_neg hneg) fun hafter => ?_⟩
      have := reads_integer hi hafter
      rwa [decide_eq_true hneg] at this
    · have hchars : (Json.integer i).chars = Nat.toDigits 10 i.natAbs :=
        toList_toString_of_nonneg (not_lt.1 hneg)
      obtain ⟨c, rest, htoDigits, -⟩ := (isWhole_toDigits i.natAbs).head
      refine ⟨c, leads_digit (isDigit_of_mem_toDigits (htoDigits ▸ List.mem_cons_self))
        (hchars.trans htoDigits) fun hafter => ?_⟩
      have := reads_integer hi hafter
      rwa [decide_eq_false hneg, ← hchars] at this
  | @float _ x hx =>
    obtain ⟨negative, b, hb, rfl, htext⟩ := toList_floatText hx
    cases negative with
    | true => exact ⟨'-', leads_minus htext (reads_magnitudeText hb true)⟩
    | false =>
      obtain ⟨c, rest, hhead, hc⟩ := exists_head_magnitudeText hb
      refine ⟨c, leads_digit hc (htext.trans hhead) fun hafter => ?_⟩
      have := reads_magnitudeText hb false hafter
      rwa [← show (Json.float _).chars = magnitudeText b from htext] at this
  | string s =>
    refine ⟨'"', ⟨_, rfl⟩, by decide, by decide, by decide, fun h => absurd h (by decide), ?_⟩
    exact fun _ => Reads.bind_last (reads_string s _) (reads_pure _ _)
  | array => exact hscalar.elim
  | object => exact hscalar.elim

/-- The first character of a text that can be read: it says whether the value is null. -/
theorem exists_head_chars {level : Nat} {j : Json} (hj : Readable level j) :
    ∃ c rest, j.chars = c :: rest ∧ Opens c ∧ (c = 'n' → j = .null) := by
  cases j with
  | array items => exact ⟨'[', _, rfl, by decide, fun h => absurd h (by decide)⟩
  | object members => exact ⟨'\x7b', _, rfl, by decide, fun h => absurd h (by decide)⟩
  | null | bool | integer | float | string =>
    obtain ⟨c, hc⟩ := exists_leads hj trivial
    obtain ⟨rest, hrest⟩ := hc.chars
    exact ⟨c, rest, hrest, hc.opens, hc.null⟩

/-- **Reading back.** The reader makes `a` of the text of the value, whatever ends it. -/
structure ReadsBack {α : Type} (r : Reader α) (j : Json) (a : α) : Prop where
  opens : ∃ c rest, j.chars = c :: rest ∧ Opens c
  reads : ∀ {after : List Char}, Ends after → r.Reads j.chars after a

theorem readsBack_of_readable {α : Type} {level : Nat} {j : Json}
    (hj : Readable level j) {r : Reader α} {a : α}
    (h : ∀ {after : List Char}, Ends after → r.Reads j.chars after a) : ReadsBack r j a := by
  obtain ⟨c, rest, hchars, hc, -⟩ := exists_head_chars hj
  exact ⟨⟨c, rest, hchars, hc⟩, h⟩

theorem Opens.starts {c : Char} (hc : Opens c) (rest : List Char) : Starts (c :: rest) := by
  intro c' hc'
  cases hc'
  exact hc.spec.1

theorem Opens.noGap {c : Char} (hc : Opens c) (rest : List Char) : NoGap (c :: rest) := by
  intro c' hc'
  cases hc'
  exact hc.spec.2.1

theorem Ends.noGap {after : List Char} (h : Ends after) : NoGap after := by
  intro c hc
  obtain rfl | rfl | rfl := h c hc <;> decide

theorem ends_bracket (after : List Char) : Ends (']' :: after) :=
  fun c hc => by cases hc; decide

theorem ends_brace (after : List Char) : Ends ('\x7d' :: after) :=
  fun c hc => by cases hc; decide

theorem ends_comma (after : List Char) : Ends (',' :: after) :=
  fun c hc => by cases hc; decide

/-! ## Lists -/

/-- What stands before an item: a comma, unless it is the first. -/
def lead (first : Bool) : List Char :=
  if first then [] else [',']

/-- The text of items, the first of which may have some before it. -/
def itemsFrom (first : Bool) : List Json → List Char
  | [] => []
  | j :: rest => lead first ++ (j.chars ++ itemsFrom false rest)

theorem charsOfItems_eq (items : List Json) : charsOfItems items = itemsFrom true items := by
  induction items with
  | nil => rfl
  | cons j rest ih =>
    cases rest with
    | nil => exact (List.append_nil _).symm
    | cons j' rest =>
      show j.chars ++ ',' :: charsOfItems (j' :: rest) = _
      rw [ih]
      rfl

theorem ends_itemsFrom (items : List Json) (after : List Char) :
    Ends (itemsFrom false items ++ ']' :: after) := by
  cases items with
  | nil => exact ends_bracket after
  | cons j rest => exact ends_comma _

theorem reads_hasItem {c : Char} (hc : Opens c) (first : Bool) (rest : List Char) :
    (hasItem first).Reads (lead first) (c :: rest) true := by
  obtain ⟨-, -, hbracket, -, -⟩ := hc.spec
  cases first with
  | true =>
    refine Reads.gap_bind (hc.starts rest) (hc.noGap rest) ?_
    split
    · rename_i h
      cases h
    · rename_i h
      cases h
      exact absurd rfl hbracket
    · exact reads_pure _ _
  | false =>
    refine Reads.gap_bind (ends_comma _).starts (ends_comma _).noGap ?_
    refine Reads.take_bind (by decide) (Reads.gap_bind (hc.starts rest) (hc.noGap rest) ?_)
    split
    · rename_i h
      cases h
      exact absurd rfl hbracket
    · exact reads_pure _ _
    · rename_i h
      cases h

theorem reads_hasItem_end (first : Bool) (after : List Char) :
    (hasItem first).Reads [] (']' :: after) false :=
  Reads.gap_bind (ends_bracket after).starts (ends_bracket after).noGap (reads_pure _ _)

theorem reads_endList (after : List Char) : endList.Reads [']'] after () :=
  Reads.gap_bind (ends_bracket after).starts (ends_bracket after).noGap (reads_take (by decide))

section Lists

variable {α : Type} {item : Reader α} {js : List Json} {as : List α}

theorem reads_items (h : List.Forall₂ (ReadsBack item) js as) (after : List Char) :
    ∀ {first : Bool} {fuel : Nat}, js.length < fuel →
      (items item first fuel).Reads (itemsFrom first js) (']' :: after) as := by
  induction h with
  | nil =>
    intro first fuel hfuel
    obtain ⟨fuel, rfl⟩ := Nat.exists_eq_succ_of_ne_zero (Nat.ne_of_gt hfuel)
    exact Reads.bind_last (reads_hasItem_end first after) (reads_pure _ _)
  | @cons j a js as hj hjs ih =>
    intro first fuel hfuel
    obtain ⟨fuel, rfl⟩ := Nat.exists_eq_succ_of_ne_zero (Nat.ne_of_gt (Nat.zero_lt_of_lt hfuel))
    obtain ⟨c, rest, hchars, hc⟩ := hj.opens
    have hitem : (hasItem first).Reads (lead first)
        (j.chars ++ itemsFrom false js ++ ']' :: after) true := by
      rw [hchars]
      exact reads_hasItem hc first _
    refine Reads.bind hitem ?_
    refine Reads.bind (hj.reads (ends_itemsFrom js after)) ?_
    exact Reads.bind_last (ih (Nat.lt_of_succ_lt_succ hfuel)) (reads_pure _ _)

theorem length_le_length_itemsFrom (h : List.Forall₂ (ReadsBack item) js as) (first : Bool) :
    js.length ≤ (itemsFrom first js).length := by
  induction h generalizing first with
  | nil => exact Nat.le_refl 0
  | @cons j a js as hj hjs ih =>
    obtain ⟨c, rest, hchars, -⟩ := hj.opens
    have hlength := ih false
    rw [itemsFrom, hchars, List.length_append, List.length_append, List.length_cons,
      List.length_cons]
    omega

/-- **Lists are read back** if their items are. -/
theorem reads_list (h : List.Forall₂ (ReadsBack item) js as) (after : List Char) :
    (closing (items item true ((bytes (charsOfItems js ++ [']'] ++ after)).length + 1))
      endList).Reads (charsOfItems js ++ [']']) after as := by
  refine Reads.closing ?_ (reads_endList after)
  rw [charsOfItems_eq]
  refine reads_items h after (Nat.lt_succ_of_le ?_)
  refine (length_le_length_itemsFrom h true).trans ?_
  rw [List.append_assoc]
  exact Nat.le_of_lt_succ (length_lt_bound _ _)

end Lists

/-! ## Objects -/

/-- A member and its name. -/
def memberText (m : String × Json) : List Char :=
  stringText m.1 ++ ':' :: m.2.chars

/-- The text of members, the first of which may have some before it. -/
def membersFrom (first : Bool) : List (String × Json) → List Char
  | [] => []
  | m :: rest => lead first ++ (memberText m ++ membersFrom false rest)

theorem charsOfMembers_eq (members : List (String × Json)) :
    charsOfMembers members = membersFrom true members := by
  induction members with
  | nil => rfl
  | cons m rest ih =>
    cases rest with
    | nil => exact (List.append_nil _).symm
    | cons m' rest =>
      show stringText m.1 ++ ':' :: m.2.chars ++ ',' :: charsOfMembers (m' :: rest) = _
      rw [ih]
      rfl

theorem ends_membersFrom (members : List (String × Json)) (after : List Char) :
    Ends (membersFrom false members ++ '\x7d' :: after) := by
  cases members with
  | nil => exact ends_brace after
  | cons m rest => exact ends_comma _

theorem length_le_length_membersFrom (members : List (String × Json)) (first : Bool) :
    members.length ≤ (membersFrom first members).length := by
  induction members generalizing first with
  | nil => exact Nat.le_refl 0
  | cons m rest ih =>
    have hrest := ih false
    have hm : 0 < (memberText m).length := Nat.succ_pos _
    rw [membersFrom, List.length_append, List.length_append, List.length_cons]
    omega

theorem reads_hasKey (first : Bool) (rest : List Char) :
    (hasKey first).Reads (lead first) ('"' :: rest) true := by
  have hquote : Opens '"' := by decide
  cases first with
  | true => exact Reads.gap_bind (hquote.starts rest) (hquote.noGap rest) (reads_pure _ _)
  | false =>
    refine Reads.gap_bind (ends_comma _).starts (ends_comma _).noGap ?_
    refine Reads.take_bind (by decide) ?_
    exact Reads.gap_bind (hquote.starts rest) (hquote.noGap rest) (reads_pure _ _)

theorem reads_hasKey_end (first : Bool) (after : List Char) :
    (hasKey first).Reads [] ('\x7d' :: after) false :=
  Reads.gap_bind (ends_brace after).starts (ends_brace after).noGap (reads_pure _ _)

theorem reads_endObject (after : List Char) : endObject.Reads ['\x7d'] after () :=
  Reads.gap_bind (ends_brace after).starts (ends_brace after).noGap (reads_take (by decide))

theorem reads_colon (after : List Char) : colon.Reads [':'] after () :=
  Reads.gap_bind (fun c hc => by cases hc; decide) (fun c hc => by cases hc; decide)
    (reads_take (by decide))

theorem reads_member {β : Type} {first : Bool} {name : String} {text after : List Char}
    {f : String → Reader β} {otherwise : Reader β} {b : β} (h : (f name).Reads text after b) :
    (do
      if ← hasKey first then
        let key ← string
        f key
      else otherwise : Reader β).Reads (lead first ++ (stringText name ++ text)) after b :=
  Reads.bind (reads_hasKey first _) (Reads.bind (reads_string name _) h)

theorem reads_members {value : Reader Json} {ms : List (String × Json)}
    (h : ∀ m ∈ ms, ReadsBack value m.2 m.2.reread) (after : List Char) :
    ∀ {first : Bool} {fuel : Nat}, ms.length < fuel →
      (members value first fuel).Reads (membersFrom first ms) ('\x7d' :: after)
        (rereadMembers ms) := by
  induction ms with
  | nil =>
    intro first fuel hfuel
    obtain ⟨fuel, rfl⟩ := Nat.exists_eq_succ_of_ne_zero (Nat.ne_of_gt hfuel)
    exact Reads.bind_last (reads_hasKey_end first after) (reads_pure _ _)
  | cons m ms ih =>
    intro first fuel hfuel
    obtain ⟨fuel, rfl⟩ := Nat.exists_eq_succ_of_ne_zero (Nat.ne_of_gt (Nat.zero_lt_of_lt hfuel))
    rw [membersFrom, memberText, List.append_assoc, List.cons_append]
    refine reads_member (Reads.cons_bind (reads_colon _) ?_)
    refine Reads.bind ((h m List.mem_cons_self).reads (ends_membersFrom ms after)) ?_
    refine Reads.bind_last (ih ?_ (Nat.lt_of_succ_lt_succ hfuel)) (reads_pure _ _)
    exact fun m' hm' => h m' (List.mem_cons_of_mem _ hm')

/-- What is left of the text bounds the members it starts with. -/
theorem length_lt_bound_members (ms : List (String × Json)) (after : List Char) :
    ms.length < (bytes (charsOfMembers ms ++ after)).length + 1 := by
  rw [charsOfMembers_eq]
  exact (length_le_length_membersFrom ms true).trans_lt (length_lt_bound _ after)

section Objects

variable {α : Type} {body : Nat → Reader α} {ms : List (String × Json)} {a : α} {after : List Char}

/-- A loop over the members of an object, which the rest of the text bounds. -/
theorem reads_bound_members
    (h : ∀ {fuel : Nat}, ms.length < fuel →
      (body fuel).Reads (membersFrom true ms) ('\x7d' :: after) a) :
    (bound >>= body).Reads (charsOfMembers ms) ('\x7d' :: after) a := by
  refine Reads.bound_bind ?_
  have hreads := h (length_lt_bound_members ms ('\x7d' :: after))
  rwa [charsOfMembers_eq] at hreads ⊢

/-- **Objects are read back** by what reads their members off. -/
theorem reads_object
    (h : ∀ {fuel : Nat}, ms.length < fuel →
      (body fuel).Reads (membersFrom true ms) ('\x7d' :: after) a) :
    (closing (body ((bytes (charsOfMembers ms ++ ['\x7d'] ++ after)).length + 1))
      endObject).Reads (charsOfMembers ms ++ ['\x7d']) after a := by
  refine Reads.closing ?_ (reads_endObject after)
  rw [List.append_assoc]
  have hreads := h (length_lt_bound_members ms (['\x7d'] ++ after))
  rwa [charsOfMembers_eq] at hreads ⊢

end Objects

/-! ## Values -/

theorem reads_valueOver_scalar {level : Nat} {j : Json} (hj : Readable level j)
    (hscalar : j.IsScalar) (inner : Option (Reader Json)) {after : List Char}
    (hafter : Ends after) :
    (valueOver inner).Reads j.chars after j.reread := by
  obtain ⟨c, hc⟩ := exists_leads hj hscalar
  have hreads := hc.reads hafter
  obtain ⟨rest, hrest⟩ := hc.chars
  rw [hrest] at hreads ⊢
  refine Reads.gap_bind (hc.opens.starts _) (hc.opens.noGap _) ?_
  split
  · rename_i h
    cases h
  · rename_i h
    cases h
    exact absurd rfl hc.bracket
  · rename_i h
    cases h
    exact absurd rfl hc.brace
  · rename_i h
    cases h
    exact Reads.bind_last hreads (reads_pure _ _)

theorem readsBack_value_scalar {level : Nat} {j : Json} (hj : Readable level j)
    (hscalar : j.IsScalar) : ReadsBack (value level) j j.reread := by
  refine readsBack_of_readable hj fun hafter => ?_
  cases level with
  | zero => exact reads_valueOver_scalar hj hscalar _ hafter
  | succ level => exact reads_valueOver_scalar hj hscalar _ hafter

/-- **Values are read back.** The text of a value that opens no more levels than the reader allows
is read as that value, with its decimals as precise as they are read. -/
theorem readsBack_value {level : Nat} {j : Json} (hj : Readable level j) :
    ReadsBack (value level) j j.reread := by
  induction hj with
  | null => exact readsBack_value_scalar .null trivial
  | bool b => exact readsBack_value_scalar (.bool b) trivial
  | integer h => exact readsBack_value_scalar (.integer h) trivial
  | float h => exact readsBack_value_scalar (.float h) trivial
  | string s => exact readsBack_value_scalar (.string s) trivial
  | @array level items h ih =>
    refine readsBack_of_readable (.array h) fun {after} hafter => ?_
    show (value (level + 1)).Reads ('[' :: (charsOfItems items ++ [']'])) after _
    refine Reads.gap_bind (fun c hc => by cases hc; decide) (fun c hc => by cases hc; decide) ?_
    refine Reads.take_bind (by decide) (Reads.bound_bind ?_)
    rw [reread_array]
    refine Reads.bind_last (reads_list ?_ after) (reads_pure _ _)
    rw [List.forall₂_map_right_iff]
    exact List.forall₂_same.2 ih
  | @object level members h ih =>
    refine readsBack_of_readable (.object h) fun {after} hafter => ?_
    show (value (level + 1)).Reads ('\x7b' :: (charsOfMembers members ++ ['\x7d'])) after _
    refine Reads.gap_bind (fun c hc => by cases hc; decide) (fun c hc => by cases hc; decide) ?_
    refine Reads.take_bind (by decide) (Reads.bound_bind ?_)
    rw [reread_object]
    exact Reads.bind_last (reads_object (reads_members ih after)) (reads_pure _ _)

/-! ## Passing over a value -/

theorem reads_skip_of_skipScalar {c : Char} {rest after : List Char} (hc : Opens c)
    (hbracket : c ≠ '[') (hbrace : c ≠ '\x7b') (h : (skipScalar c).Reads (c :: rest) after ()) :
    skip.Reads (c :: rest) after () := by
  refine Reads.bound_bind ?_
  generalize (bytes (c :: rest ++ after)).length = n
  show (skipRest [] .value (2 * n + 1 + 1)).Reads _ _ _
  refine Reads.gap_bind (hc.starts _) (hc.noGap _) ?_
  split
  · rename_i h
    cases h
  · rename_i h
    cases h
    exact absurd rfl hbracket
  · rename_i h
    cases h
    exact absurd rfl hbrace
  · rename_i heq
    cases heq
    exact Reads.bind_last h (reads_pure _ _)

theorem reads_skip {j : Json} (hj : IsExtra j) (after : List Char) :
    skip.Reads j.chars after () := by
  cases j with
  | null =>
    exact reads_skip_of_skipScalar (by decide) (by decide) (by decide)
      (Reads.take_bind (by decide) (reads_word (isAscii_of_all rfl) after))
  | bool b =>
    cases b with
    | true =>
      exact reads_skip_of_skipScalar (by decide) (by decide) (by decide)
        (Reads.take_bind (by decide) (reads_word (isAscii_of_all rfl) after))
    | false =>
      exact reads_skip_of_skipScalar (by decide) (by decide) (by decide)
        (Reads.take_bind (by decide) (reads_word (isAscii_of_all rfl) after))
  | string s =>
    exact reads_skip_of_skipScalar (by decide) (by decide) (by decide) (reads_skipString s after)
  | integer | float | array | object => exact hj.elim

end Reader

end Pagewright.Json
