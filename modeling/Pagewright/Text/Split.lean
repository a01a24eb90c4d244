/-!
# Splitting a text at a character

The pieces of a text between the places where a separator stands. A text without the separator is
one piece, so there is always at least one, and joining the pieces with the separator gives the
text back.
-/

namespace Pagewright.Text

/-- The pieces of a text between the separators. -/
def splitAt (separator : Char) : List Char → List (List Char)
  | [] => [[]]
  | c :: rest =>
    if c = separator then [] :: splitAt separator rest
    else
      match splitAt separator rest with
      | first :: others => (c :: first) :: others
      | [] => [[c]]

/-- A text is never without pieces. -/
theorem splitAt_ne_nil (separator : Char) (cs : List Char) : splitAt separator cs ≠ [] := by
  cases cs with
  | nil => simp [splitAt]
  | cons c rest =>
    unfold splitAt
    split
    · simp
    · split <;> simp

/-- A text is split on both sides of a separator apart. -/
theorem splitAt_append_cons (separator : Char) (xs ys : List Char) :
    splitAt separator (xs ++ separator :: ys) = splitAt separator xs ++ splitAt separator ys := by
  induction xs with
  | nil => simp [splitAt]
  | cons c xs ih =>
    rw [List.cons_append, splitAt, splitAt, ih]
    split
    · rfl
    · cases hxs : splitAt separator xs with
      | nil => exact absurd hxs (splitAt_ne_nil separator xs)
      | cons first others => rfl

/-- A text without the separator is one piece. -/
theorem splitAt_of_not_mem {separator : Char} {cs : List Char} (h : separator ∉ cs) :
    splitAt separator cs = [cs] := by
  induction cs with
  | nil => rfl
  | cons c cs ih =>
    obtain ⟨hc, hcs⟩ := not_or.mp (mt List.mem_cons.mpr h)
    rw [splitAt, if_neg (Ne.symm hc), ih hcs]

/-- What is put in front of a text goes to the first piece and changes no other. -/
theorem splitAt_append_of_eq {separator : Char} {ys first : List Char} {others : List (List Char)}
    (h : splitAt separator ys = splitAt separator first ++ others) (xs : List Char) :
    splitAt separator (xs ++ ys) = splitAt separator (xs ++ first) ++ others := by
  induction xs with
  | nil => exact h
  | cons c xs ih =>
    rw [List.cons_append, List.cons_append, splitAt, splitAt, ih]
    split
    · rfl
    · cases hfirst : splitAt separator (xs ++ first) with
      | nil => exact absurd hfirst (splitAt_ne_nil separator _)
      | cons piece pieces => rfl

end Pagewright.Text
