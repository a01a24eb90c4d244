import Pagewright.Diagnostic
import Pagewright.Text.Split

/-!
# The text of a path

In a report a path is a text: its steps in words, with points between them. Nothing of the path is
lost there. The text is split at its points, and each piece is the title of a section or the name of
a list with an index in brackets (`Path.read?`). A text is read as a path exactly if it is the text
of that path, so different paths have different texts (`Path.text_injective`).
-/

namespace Pagewright

/-! ## Pieces and separators -/

namespace Text

variable {separator : Char} {cs : List Char} {pieces : List (List Char)}

/-- **Pieces are found again** between the separators. -/
theorem splitAt_intercalate (hne : pieces ≠ []) (h : ∀ piece ∈ pieces, separator ∉ piece) :
    splitAt separator ([separator].intercalate pieces) = pieces := by
  induction pieces with
  | nil => exact absurd rfl hne
  | cons piece pieces ih =>
    obtain ⟨hpiece, hpieces⟩ := List.forall_mem_cons.mp h
    cases pieces with
    | nil => rw [List.intercalate_singleton, splitAt_of_not_mem hpiece]
    | cons next pieces =>
      rw [List.intercalate_cons_cons, List.append_assoc, List.singleton_append,
        splitAt_append_cons, splitAt_of_not_mem hpiece, ih (List.cons_ne_nil _ _) hpieces]
      rfl

/-- **The pieces make up the text**, with the separators between them. -/
theorem intercalate_splitAt (separator : Char) (cs : List Char) :
    [separator].intercalate (splitAt separator cs) = cs := by
  induction cs with
  | nil => rfl
  | cons c cs ih =>
    obtain ⟨first, others, hcs⟩ := List.exists_cons_of_ne_nil (splitAt_ne_nil separator cs)
    rw [hcs] at ih
    rw [splitAt, hcs]
    split
    · next hc => rw [List.intercalate_cons_cons, ih, hc, List.nil_append, List.singleton_append]
    · cases others with
      | nil =>
        rw [List.intercalate_singleton] at ih ⊢
        rw [ih]
      | cons next others =>
        rw [List.intercalate_cons_cons] at ih ⊢
        rw [List.cons_append, List.cons_append, ih]

end Text

/-! ## Steps -/

namespace Step

/-- The steps that have an index, by the names that they are written with. -/
def indexed : List (String × (Nat → Step)) :=
  [("head", head), ("body", body), ("components", component), ("functions", function),
   ("statements", statement), ("styles", style), ("content", content), ("css", css),
   ("properties", property)]

/-- **The step that a text stands for.** -/
def read? (cs : List Char) : Option Step :=
  if cs = "title".toList then some title
  else
    let name := cs.takeWhile (· ≠ '[')
    let index := Nat.ofDigitChars 10 (cs.drop (name.length + 1)).dropLast 0
    (indexed.find? (·.1.toList = name)).bind fun entry =>
      if cs = name ++ '[' :: Nat.toDigits 10 index ++ [']'] then some (entry.2 index) else none

/-- A step that has an index is one of those that are listed. -/
theorem eq_title_or_indexed (step : Step) :
    step = title ∨ ∃ entry ∈ indexed, ∃ i, step = entry.2 i := by
  cases step with
  | title => exact .inl rfl
  | head i => exact .inr ⟨("head", head), by simp [indexed], i, rfl⟩
  | body i => exact .inr ⟨("body", body), by simp [indexed], i, rfl⟩
  | component i => exact .inr ⟨("components", component), by simp [indexed], i, rfl⟩
  | function i => exact .inr ⟨("functions", function), by simp [indexed], i, rfl⟩
  | statement i => exact .inr ⟨("statements", statement), by simp [indexed], i, rfl⟩
  | style i => exact .inr ⟨("styles", style), by simp [indexed], i, rfl⟩
  | content i => exact .inr ⟨("content", content), by simp [indexed], i, rfl⟩
  | css i => exact .inr ⟨("css", css), by simp [indexed], i, rfl⟩
  | property i => exact .inr ⟨("properties", property), by simp [indexed], i, rfl⟩

/-- What is listed, entry by entry. -/
theorem forall_mem_indexed {Q : String × (Nat → Step) → Prop} :
    (∀ entry ∈ indexed, Q entry) ↔
      Q ("head", head) ∧ Q ("body", body) ∧ Q ("components", component) ∧
        Q ("functions", function) ∧ Q ("statements", statement) ∧ Q ("styles", style) ∧
        Q ("content", content) ∧ Q ("css", css) ∧ Q ("properties", property) := by
  simp only [indexed, List.forall_mem_cons, List.not_mem_nil, false_imp_iff, implies_true, and_true]

/-- A step with an index is written as its name, with the index in brackets. -/
theorem toList_text_indexed (i : Nat) : ∀ entry ∈ indexed,
    (entry.2 i).text.toList = entry.1.toList ++ '[' :: Nat.toDigits 10 i ++ [']'] := by
  have hwritten {front name : String} (h : front.toList = name.toList ++ ['[']) :
      (toString front ++ toString i ++ toString "]").toList
        = name.toList ++ '[' :: Nat.toDigits 10 i ++ [']'] := by
    show (front ++ Nat.repr i ++ "]").toList = _
    simp [Nat.toList_repr, h]
  refine forall_mem_indexed.mpr ⟨?_, ?_, ?_, ?_, ?_, ?_, ?_, ?_, ?_⟩
  all_goals
    unfold text
    exact hwritten (by decide)

/-- The names are told apart by the list. -/
theorem find?_indexed : ∀ entry ∈ indexed,
    indexed.find? (·.1.toList = entry.1.toList) = some entry :=
  forall_mem_indexed.mpr ⟨rfl, rfl, rfl, rfl, rfl, rfl, rfl, rfl, rfl⟩

/-- In a name there is neither a bracket nor a point. -/
theorem not_mem_indexed : ∀ entry ∈ indexed, '[' ∉ entry.1.toList ∧ '.' ∉ entry.1.toList := by
  refine forall_mem_indexed.mpr ⟨?_, ?_, ?_, ?_, ?_, ?_, ?_, ?_, ?_⟩
  all_goals decide

theorem read?_text_of_mem {entry : String × (Nat → Step)} (h : entry ∈ indexed) (i : Nat) :
    read? (entry.2 i).text.toList = some (entry.2 i) := by
  have hname : (entry.1.toList ++ '[' :: Nat.toDigits 10 i ++ [']']).takeWhile (· ≠ '[')
      = entry.1.toList := by
    rw [List.append_assoc, List.takeWhile_append_of_pos, List.cons_append,
      List.takeWhile_cons_of_neg (by decide), List.append_nil]
    exact fun c hc => decide_eq_true fun heq => (not_mem_indexed entry h).1 (heq ▸ hc)
  have hindex : ((entry.1.toList ++ '[' :: Nat.toDigits 10 i ++ [']']).drop
      (entry.1.toList.length + 1)).dropLast = Nat.toDigits 10 i := by
    rw [List.append_assoc, List.drop_length_add_append, List.cons_append, List.drop_one,
      List.tail_cons, List.dropLast_concat]
  have htitle : entry.1.toList ++ '[' :: Nat.toDigits 10 i ++ [']'] ≠ "title".toList := by
    intro heq
    have hmem : '[' ∈ "title".toList := by
      rw [← heq]
      simp
    revert hmem
    decide
  unfold read?
  rw [toList_text_indexed i entry h, if_neg htitle, hname]
  dsimp only
  rw [hindex, find?_indexed entry h, Nat.ofDigitChars_ten_toDigits]
  exact if_pos rfl

/-- **A text is read as a step exactly if it is the text of the step.** -/
theorem read?_eq_some_iff {cs : List Char} {step : Step} :
    read? cs = some step ↔ cs = step.text.toList := by
  constructor
  · intro h
    unfold read? at h
    split at h
    · next htitle =>
      cases h
      exact htitle
    · obtain ⟨entry, hentry, h⟩ := Option.bind_eq_some_iff.mp h
      obtain ⟨htext, hstep⟩ := Option.ite_none_right_eq_some.mp h
      cases hstep
      have hname := List.find?_some hentry
      rw [toList_text_indexed _ entry (List.mem_of_find?_eq_some hentry), of_decide_eq_true hname]
      exact htext
  · rintro rfl
    rcases step.eq_title_or_indexed with rfl | ⟨entry, hentry, i, rfl⟩
    · rfl
    · exact read?_text_of_mem hentry i

/-- There is no point in the text of a step. -/
theorem point_not_mem_text (step : Step) : '.' ∉ step.text.toList := by
  rcases step.eq_title_or_indexed with rfl | ⟨entry, hentry, i, rfl⟩
  · decide
  · have hdigits : '.' ∉ Nat.toDigits 10 i := fun hmem =>
      nomatch Nat.isDigit_of_mem_toDigits (by decide) (by decide) hmem
    rw [toList_text_indexed i entry hentry]
    simp [(not_mem_indexed entry hentry).2, hdigits]

end Step

/-! ## Paths -/

namespace Path

/-- **The path that a text stands for.** -/
def read? (text : String) : Option Path :=
  (Text.splitAt '.' text.toList).mapM Step.read?

theorem toList_text (path : Path) :
    path.text.toList = ['.'].intercalate (path.map fun step => step.text.toList) := by
  unfold text
  simp [Function.comp_def]

/-- Pieces are read as steps exactly if they are the texts of the steps. -/
theorem mapM_read?_eq_some_iff {pieces : List (List Char)} {path : Path} :
    pieces.mapM Step.read? = some path ↔ pieces = path.map fun step => step.text.toList := by
  induction pieces generalizing path with
  | nil => cases path <;> simp
  | cons piece pieces ih =>
    cases path <;> simp [Option.bind_eq_some_iff, Step.read?_eq_some_iff, ih]

/-- **A text is read as a path exactly if it is the text of the path**, and no text is read as the
path without steps. -/
theorem read?_eq_some_iff {text : String} {path : Path} :
    read? text = some path ↔ path ≠ [] ∧ text = path.text := by
  unfold read?
  rw [mapM_read?_eq_some_iff]
  constructor
  · intro h
    have htext := Text.intercalate_splitAt '.' text.toList
    rw [h, ← toList_text] at htext
    refine ⟨fun hnil => ?_, String.toList_inj.mp htext.symm⟩
    rw [hnil] at h
    exact Text.splitAt_ne_nil _ _ h
  · rintro ⟨hne, rfl⟩
    rw [toList_text, Text.splitAt_intercalate (by simpa using hne)]
    exact List.forall_mem_map.mpr fun step _ => step.point_not_mem_text

/-- **Different paths have different texts.** -/
theorem text_injective {path path' : Path} (hne : path ≠ []) (hne' : path' ≠ [])
    (h : path.text = path'.text) : path = path' := by
  have hread := read?_eq_some_iff.mpr ⟨hne, rfl⟩
  have hread' := read?_eq_some_iff.mpr ⟨hne', h⟩
  exact Option.some.inj (hread.symm.trans hread')

end Path

end Pagewright
