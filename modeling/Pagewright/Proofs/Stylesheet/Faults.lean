import Pagewright.Proofs.Stylesheet.Sources

/-!
# Where a source is refused

A source that is no stylesheet is refused at a character, and the error gives the line and the
column of that character. This module says which character it is, in terms of the grammar: what
stands in front of it are gaps and whole rules (`Source.Item`), and then perhaps the prelude of
a rule (`Source.Begun`) or a part of its block (`Source.Opened`). From these it can be told for each
fault what is wrong with the character (`Source.Blames`).

The pass over the lexemes and the grammar are followed side by side. What the pass has read when it
stands in some state is what the grammar has for that state (`Source.Reached`), and where the
grammar comes to, the pass comes to (`Source.Comes`). So a source is refused if and only if one of
its characters is to blame.
-/

namespace Pagewright.Stylesheet

/-! ## Lines and columns -/

/-- **A text that ends in this line and in front of this column**, both counted from one: so many
whole lines, and then some characters of the next one. -/
def EndsAt (text : List Char) (line column : Nat) : Prop :=
  ∃ lines last, (∀ l ∈ last :: lines, '\n' ∉ l) ∧ text = lines.flatMap (· ++ ['\n']) ++ last ∧
    line = lines.length + 1 ∧ column = last.length + 1

/-- Every text ends somewhere. -/
theorem exists_endsAt (text : List Char) : ∃ line column, EndsAt text line column := by
  suffices h : ∃ lines last, (∀ l ∈ last :: lines, '\n' ∉ l) ∧
      text = lines.flatMap (· ++ ['\n']) ++ last by
    obtain ⟨lines, last, hlines, htext⟩ := h
    exact ⟨_, _, lines, last, hlines, htext, rfl, rfl⟩
  induction text with
  | nil => exact ⟨[], [], by simp, rfl⟩
  | cons c text ih =>
    obtain ⟨lines, last, hlines, rfl⟩ := ih
    by_cases hc : c = '\n'
    · subst hc
      exact ⟨[] :: lines, last, by simpa using hlines, rfl⟩
    · -- The character belongs to the first line, which may be the last one.
      cases lines with
      | nil => exact ⟨[], c :: last, by simpa [Ne.symm hc] using hlines, rfl⟩
      | cons first lines =>
        exact ⟨(c :: first) :: lines, last, by simpa [Ne.symm hc] using hlines, rfl⟩

/-- There are as many line feeds as whole lines. -/
theorem count_lines {lines : List (List Char)} (h : ∀ l ∈ lines, '\n' ∉ l) :
    (lines.flatMap (· ++ ['\n'])).count '\n' = lines.length := by
  induction lines with
  | nil => rfl
  | cons l lines ih =>
    obtain ⟨hl, hlines⟩ := List.forall_mem_cons.mp h
    simp [List.count_append, List.count_eq_zero_of_not_mem hl, ih hlines]

/-- Behind whole lines, what is read backwards up to a line feed is the line that has begun. -/
theorem takeWhile_reverse_lines (lines : List (List Char)) {last : List Char} (h : '\n' ∉ last) :
    (lines.flatMap (· ++ ['\n']) ++ last).reverse.takeWhile (· ≠ '\n') = last.reverse := by
  have hlast : ∀ c ∈ last.reverse, (decide (c ≠ '\n')) = true := by
    intro c hc
    exact decide_eq_true (fun heq => h (heq ▸ List.mem_reverse.mp hc))
  rw [List.reverse_append, List.takeWhile_append_of_pos hlast]
  rcases List.eq_nil_or_concat lines with rfl | ⟨lines, l, rfl⟩ <;> simp

/-- **The place that a text ends at** is found by counting. -/
theorem endsAt_iff {text : List Char} {line column : Nat} :
    EndsAt text line column ↔ line = text.count '\n' + 1 ∧
      column = (text.reverse.takeWhile (· ≠ '\n')).length + 1 := by
  have hcount : ∀ {line column}, EndsAt text line column → line = text.count '\n' + 1 ∧
      column = (text.reverse.takeWhile (· ≠ '\n')).length + 1 := by
    rintro line column ⟨lines, last, hlines, rfl, rfl, rfl⟩
    obtain ⟨hlast, hlines⟩ := List.forall_mem_cons.mp hlines
    rw [takeWhile_reverse_lines lines hlast, List.count_append, count_lines hlines,
      List.count_eq_zero_of_not_mem hlast, List.length_reverse]
    exact ⟨rfl, rfl⟩
  refine ⟨hcount, ?_⟩
  rintro ⟨rfl, rfl⟩
  obtain ⟨line, column, hends⟩ := exists_endsAt text
  obtain ⟨rfl, rfl⟩ := hcount hends
  exact hends

/-- **Line and column of a character** are those that the text in front of it ends at. -/
theorem endsAt_iff_lineAt {before after : List Char} {line column : Nat} :
    EndsAt before line column ↔ line = lineAt (before ++ after) before.length ∧
      column = columnAt (before ++ after) before.length := by
  unfold lineAt columnAt
  rw [List.take_left]
  exact endsAt_iff

namespace Source

open Lexeme

/-! ## The character to blame -/

/-- **What can stand in front of a rule**: a blank, a comment, or another rule. -/
inductive Item : (source rest : List Char) → Prop where
  | blank {c : Char} (hc : Text.isBlank c = true) (rest : List Char) : Item (c :: rest) rest
  | comment {text : List Char} (h : IsComment text) (rest : List Char) : Item (text ++ rest) rest
  | rule {source rest : List Char} (h : RuleAt source rest) : Item source rest

/-- Any number of blanks, comments and rules. -/
abbrev Items : (source rest : List Char) → Prop :=
  Relation.ReflTransGen Item

/-- **A rule of the source starts here**, and its prelude goes on as far as there. It may be that
nothing of the prelude has been read. -/
inductive Begun (source : List Char) : (start rest : List Char) → Prop where
  | intro {c : Char} {cs rest : List Char} (hitems : Items source (c :: cs))
      (hblank : Text.isBlank c = false) (hcomment : ¬ BeginsComment (c :: cs))
      (hprelude : Pieces (c = '@') (c :: cs) rest) : Begun source (c :: cs) rest

/-- **From the beginning of a block to a place inside it**, where so many further blocks are
open. -/
inductive Within (inner : List Char) : (depth : Nat) → (rest : List Char) → Prop where
  | nil : Within inner 0 inner
  | piece {depth : Nat} {mid rest : List Char} (h : Within inner depth mid)
      (hpiece : Piece false mid rest) : Within inner depth rest
  | opens {depth : Nat} {rest : List Char} (h : Within inner depth ('\x7b' :: rest)) :
      Within inner (depth + 1) rest
  | closes {depth : Nat} {rest : List Char} (h : Within inner (depth + 1) ('\x7d' :: rest)) :
      Within inner depth rest

/-- **The block of a rule of the source begins with this brace**, and the place is inside it. The
rule has a prelude, as it does not start with the brace. -/
inductive Opened (source : List Char) : (brace rest : List Char) → Prop where
  | intro {start inner rest : List Char} {depth : Nat}
      (hbegun : Begun source start ('\x7b' :: inner)) (hstart : start ≠ '\x7b' :: inner)
      (hwithin : Within inner depth rest) :
      Opened source ('\x7b' :: inner) rest

/-- A string begins here that does not end in its line. -/
def IsUnterminated (place : List Char) : Prop :=
  ∃ quote cs, isQuote quote = true ∧ place = quote :: cs ∧
    ∀ body rest, Inside quote body → cs ≠ body ++ quote :: rest

/-- The source ends here, or with a comment that begins here. -/
def IsEnd (rest : List Char) : Prop :=
  rest = [] ∨ IsOpenComment rest

/-- **The character to blame**, which is the first one of `place`, under the wording of the
error. -/
inductive Blames (source : List Char) : (message : String) → (place : List Char) → Prop where
  /-- A closing brace stands between rules or in a prelude, outside of any block. -/
  | unexpectedClose {start after : List Char} (h : Begun source start ('\x7d' :: after)) :
      Blames source "unexpected '\x7d'" ('\x7d' :: after)
  /-- An opening brace stands where a rule would start. -/
  | missingSelector {after : List Char} (h : Items source ('\x7b' :: after)) :
      Blames source "missing selector before '\x7b'" ('\x7b' :: after)
  /-- The source ends inside the block that this brace has opened. -/
  | unclosedBlock {brace rest : List Char} (h : Opened source brace rest) (hend : IsEnd rest) :
      Blames source "unclosed '\x7b' block" brace
  /-- A quote in a prelude opens a string that does not end. -/
  | stringInPrelude {start place : List Char} (h : Begun source start place)
      (hstring : IsUnterminated place) : Blames source "unterminated string" place
  /-- A quote in a block opens a string that does not end. -/
  | stringInBlock {brace place : List Char} (h : Opened source brace place)
      (hstring : IsUnterminated place) : Blames source "unterminated string" place
  /-- The source ends inside the prelude that starts here. -/
  | missingBlock {start rest : List Char} (h : Begun source start rest) (hend : IsEnd rest) :
      Blames source "expected '\x7b' after selector" start

/-! ## Strings that do not end -/

/-- **A string that does not end takes the rest of the source.** -/
theorem IsUnterminated.cut {place : List Char} (h : IsUnterminated place) :
    Cut place (.unterminated place) [] := by
  obtain ⟨quote, cs, hquote, rfl, hopen⟩ := h
  rcases exists_close hquote [quote] cs with ⟨body, rest, hbody, rfl⟩ | hlexemes
  · exact absurd rfl (hopen body rest hbody)
  · exact .unterminated ((lexemes_cons_quote hquote cs).trans hlexemes)

/-- Only a string that does not end takes the rest of the source. -/
theorem Cut.isUnterminated {source text rest : List Char}
    (h : Cut source (.unterminated text) rest) : IsUnterminated source := by
  have hlexemes := h.lexemes_eq
  match source with
  | [] => cases hlexemes
  | c :: cs =>
    cases hquote : isQuote c with
    | false =>
      by_cases hcomment : BeginsComment (c :: cs)
      · obtain ⟨rfl, hstar⟩ := beginsComment_iff.mp hcomment
        obtain ⟨cs, rfl⟩ := List.head?_eq_some_iff.mp hstar
        obtain ⟨text', rest', hcut⟩ := exists_cut_comment cs
        cases hcut.lexemes_eq.symm.trans hlexemes
      · rw [(Cut.plain hquote hcomment).lexemes_eq] at hlexemes
        cases hlexemes
    | true =>
      refine ⟨c, cs, hquote, rfl, ?_⟩
      rintro body rest' hbody rfl
      have hstring := (Cut.string ⟨c, body, hquote, hbody, rfl⟩ rest').lexemes_eq
      rw [List.cons_append, List.append_assoc, List.singleton_append, hlexemes] at hstring
      cases hstring

/-! ## One step of the pass that fails -/

section Steps

variable {offset start brace depth : Nat} {text : List Char} {selector : String} {l : Lexeme}
  {e : Located}

/-- **Why a prelude does not go on.** -/
theorem step_prelude_eq_error_iff :
    Progress.step offset (.prelude start text) l = .error e ↔
      (l = .plain '\x7d' ∧ e = (.unexpectedClose, offset)) ∨
      (l = .plain '\x7b' ∧ Text.trim text.reverse = [] ∧ e = (.missingSelector, offset)) ∨
      ((∃ text', l = .unterminated text') ∧ e = (.unterminatedString, offset)) := by
  show inPrelude offset start text l = _ ↔ _
  unfold inPrelude
  split <;> grind

/-- **Why a block does not go on.** -/
theorem step_block_eq_error_iff :
    Progress.step offset (.block brace selector depth text) l = .error e ↔
      (∃ text', l = .unterminated text') ∧ e = (.unterminatedString, offset) := by
  show inBlock offset brace selector depth text l = _ ↔ _
  unfold inBlock
  split
  · grind
  · cases depth <;> grind
  · grind
  · grind

end Steps

/-! ## From the pass to the grammar -/

/-- What is left of the source from this offset on. -/
def At (source : List Char) (offset : Nat) (rest : List Char) : Prop :=
  ∃ before, source = before ++ rest ∧ before.length = offset

/-- **What has been read of the source** when the pass stands in a state, and what is left of it. -/
def Reached (source rest : List Char) : Progress → Prop
  | .between => Items source rest
  | .prelude offset text =>
    ∃ start, Begun source start rest ∧ text ≠ [] ∧ start = text.reverse ++ rest ∧
      At source offset start
  | .block offset _ depth _ =>
    ∃ start inner, Begun source start ('\x7b' :: inner) ∧ start ≠ '\x7b' :: inner ∧
      Within inner depth rest ∧ At source offset ('\x7b' :: inner)

variable {source rest rest' : List Char} {state next : Progress} {offset : Nat} {l : Lexeme}
  {ended : List Rule}

theorem At.cut (h : At source offset rest) (hcut : Cut rest l rest') :
    At source (offset + l.text.length) rest' := by
  obtain ⟨before, rfl, rfl⟩ := h
  refine ⟨before ++ l.text, ?_, List.length_append⟩
  rw [List.append_assoc, ← hcut.source_eq]

theorem At.unique {offset' : Nat} (h : At source offset rest) (h' : At source offset' rest) :
    offset = offset' := by
  obtain ⟨before, rfl, rfl⟩ := h
  obtain ⟨before', hsame, rfl⟩ := h'
  rw [List.append_cancel_right hsame]

/-- A prelude that has been read in part is that of a directive if its first character says so. -/
theorem isDirective_of_start {text cs : List Char} {c : Char} (htext : text ≠ [])
    (hstart : c :: cs = text.reverse ++ rest) : isDirective text = decide (c = '@') := by
  obtain ⟨d, ds, hreverse⟩ := List.exists_cons_of_ne_nil (mt List.reverse_eq_nil_iff.mp htext)
  rw [hreverse, List.cons_append] at hstart
  obtain ⟨rfl, -⟩ := List.cons_eq_cons.mp hstart
  unfold isDirective
  rw [← List.head?_reverse, hreverse, List.head?_cons]
  exact decide_eq_decide.mpr Option.some_inj

/-- What has been read of a prelude is more than blanks. -/
theorem Begun.trim_ne_nil {start text : List Char} (h : Begun source start rest) (htext : text ≠ [])
    (hstart : start = text.reverse ++ rest) : Text.trim text.reverse ≠ [] := by
  obtain ⟨d, ds, hreverse⟩ := List.exists_cons_of_ne_nil (mt List.reverse_eq_nil_iff.mp htext)
  cases h with
  | intro hitems hblank =>
    rw [hreverse] at hstart ⊢
    obtain ⟨rfl, -⟩ := List.cons_eq_cons.mp hstart
    exact Stylesheet.trim_ne_nil hblank ds

/-- The first piece of a directive is the at sign. -/
theorem Pieces.of_at {cs : List Char} (h : Pieces true ('@' :: cs) (';' :: rest)) :
    Pieces true cs (';' :: rest) := by
  rcases h.cases_head with heq | ⟨mid, hpiece, hpieces⟩
  · cases heq
  · generalize hsource : '@' :: cs = source at hpiece
    cases hpiece with
    | comment h rest =>
      obtain ⟨body, -, rfl⟩ := h
      cases hsource
    | string h rest =>
      obtain ⟨quote, body, hquote, -, rfl⟩ := h
      cases hsource
      cases hquote
    | char hquote hcomment hbraces hend =>
      cases hsource
      exact hpieces

/-- **What closes the open blocks closes the block they stand in.** -/
theorem Within.closesAt {inner : List Char} {depth : Nat} (h : Within inner depth rest)
    (hcloses : ClosesAt depth rest rest') : Balanced inner ('\x7d' :: rest') := by
  induction h with
  | nil => exact hcloses
  | piece _ hpiece ih => exact ih (hcloses.of_balanced (fun _ hmid => .piece hpiece hmid))
  | opens _ ih =>
    obtain ⟨mid, hbalanced, hmid⟩ := hcloses
    exact ih (hmid.of_balanced (fun _ hrest => .nested hbalanced hrest))
  | closes _ ih => exact ih ⟨_, .nil _, hcloses⟩

/-- **A rule that has been read** up to the brace that closes its block. -/
theorem Begun.items_of_within {start inner : List Char} (h : Begun source start ('\x7b' :: inner))
    (hstart : start ≠ '\x7b' :: inner) (hwithin : Within inner 0 ('\x7d' :: rest)) :
    Items source rest := by
  cases h with
  | intro hitems hblank hcomment hprelude =>
    rcases hprelude.cases_head with heq | ⟨mid, hfirst, hmid⟩
    · exact absurd heq hstart
    · exact hitems.tail (.rule (.block hblank hcomment hfirst hmid (hwithin.closesAt (.nil _))))

/-- A quote begins neither a gap nor a comment. -/
theorem isBlank_of_isQuote {c : Char} (hc : isQuote c = true) (cs : List Char) :
    Text.isBlank c = false ∧ ¬ BeginsComment (c :: cs) := by
  refine ⟨?_, fun hcomment => ?_⟩
  · by_contra hblank
    rw [(plain_of_isBlank (eq_true_of_ne_false hblank)).1] at hc
    cases hc
  · rw [(beginsComment_iff.mp hcomment).1] at hc
    cases hc

/-- A lexeme that is not a gap starts a rule. -/
theorem Cut.begun (h : Cut rest l rest') (hitems : Items source rest) (hgap : l.isGap = false) :
    Begun source rest rest := by
  have hquote : ∀ {quote cs}, isQuote quote = true → rest = quote :: cs →
      Begun source rest rest := by
    rintro quote cs hquote rfl
    obtain ⟨hblank, hcomment⟩ := isBlank_of_isQuote hquote cs
    exact .intro hitems hblank hcomment .refl
  cases l with
  | comment text => cases hgap
  | plain c =>
    cases h with
    | plain hplain hcomment => exact .intro hitems hgap hcomment .refl
  | quoted text =>
    cases h with
    | string h rest =>
      obtain ⟨quote, body, hopen, -, rfl⟩ := h
      exact hquote hopen rfl
  | unterminated text =>
    obtain ⟨quote, cs, hopen, hrest, -⟩ := h.isUnterminated
    exact hquote hopen hrest

/-- A prelude goes on with the pieces that fit into it. -/
theorem Begun.tail {start mid : List Char} (h : Begun source start mid)
    (hpiece : ∀ c cs, start = c :: cs → Piece (c = '@') mid rest) : Begun source start rest := by
  cases h with
  | intro hitems hblank hcomment hprelude =>
    exact .intro hitems hblank hcomment (hprelude.tail (hpiece _ _ rfl))

/-- Before the end of the source, a lexeme that fits into a prelude is a piece of it. -/
theorem Cut.piece_of_not_isEnd (hcut : Cut rest l rest') (hend : ¬ IsEnd rest)
    {inDirective : Bool} (hfits : l.fitsPrelude inDirective = true) :
    Piece inDirective rest rest' :=
  (hcut.piece_or_end hfits).resolve_right (fun hopen => hend (.inr hopen.1))

/-- Between rules, a lexeme is a gap or starts a rule. -/
theorem Reached.from_between (h : Reached source rest .between) (hcut : Cut rest l rest')
    (hend : ¬ IsEnd rest) (hat : At source offset rest)
    (hstep : Progress.between.step offset l = .ok (next, ended)) : Reached source rest' next := by
  rw [step_between] at hstep
  cases hgap : l.isGap with
  | true =>
    rw [if_pos hgap] at hstep
    cases hstep
    refine Relation.ReflTransGen.tail h ?_
    cases hcut with
    | comment hcomment => exact .comment hcomment _
    | openComment hopen => exact absurd (.inr hopen) hend
    | string => cases hgap
    | unterminated => cases hgap
    | plain => exact .blank hgap _
  | false =>
    rw [hgap, if_neg Bool.false_ne_true] at hstep
    rcases step_prelude_eq_ok_iff.mp hstep with
      ⟨hfits, rfl, -⟩ | ⟨-, hdirective, -⟩ | ⟨-, hselector, -⟩
    · cases hcut.begun h hgap with
      | @intro c cs _ hitems hblank hcomment _ =>
        obtain ⟨hbegins, hdirective⟩ := hcut.begins_of_fits hfits rfl hblank hcomment
        -- The first lexeme is the one that tells whether the rule is a directive.
        have hfirst : l.fitsPrelude (c = '@') = true := by
          by_cases hc : c = '@'
          · rw [hdirective.mpr hc, hc]
            rfl
          · rw [decide_eq_false hc]
            exact hfits
        have hpiece := hcut.piece_of_not_isEnd hend hfirst
        refine ⟨c :: cs, .intro hitems hblank hcomment (.single hpiece), ?_, ?_, hat⟩
        · obtain ⟨d, ds, htext, -⟩ := exists_of_begins hbegins
          simp [htext]
        · simpa using hcut.source_eq
    · cases hdirective
    · exact absurd rfl hselector

/-- In a prelude, a lexeme goes on with it, ends the directive or opens the block. -/
theorem Reached.from_prelude {first : Nat} {text : List Char}
    (h : Reached source rest (.prelude first text)) (hcut : Cut rest l rest')
    (hend : ¬ IsEnd rest) (hat : At source offset rest)
    (hstep : Progress.step offset (.prelude first text) l = .ok (next, ended)) :
    Reached source rest' next := by
  obtain ⟨start, hbegun, htext, hstart, hfirst⟩ := h
  rcases step_prelude_eq_ok_iff.mp hstep with
    ⟨hfits, rfl, -⟩ | ⟨rfl, hdirective, rfl, -⟩ | ⟨rfl, -, rfl, -⟩
  · refine ⟨start, hbegun.tail (fun c cs hc => hcut.piece_of_not_isEnd hend ?_), ?_, ?_, hfirst⟩
    · rw [← isDirective_of_start htext (hc ▸ hstart)]
      exact hfits
    · exact List.append_ne_nil_of_right_ne_nil _ htext
    · rw [hstart, hcut.source_eq]
      simp
  · obtain rfl : rest = ';' :: rest' := hcut.source_eq
    cases hbegun with
    | intro hitems hblank hcomment hprelude =>
      rw [isDirective_of_start htext hstart] at hdirective
      cases of_decide_eq_true hdirective
      exact hitems.tail (.rule (.directive (Pieces.of_at hprelude)))
  · obtain rfl : rest = '\x7b' :: rest' := hcut.source_eq
    refine ⟨start, rest', hbegun, ?_, .nil, hat⟩
    rw [hstart]
    simpa using htext

/-- In a block, a lexeme goes on with it, opens another one or closes one. -/
theorem Reached.from_block {brace depth : Nat} {selector : String} {text : List Char}
    (h : Reached source rest (.block brace selector depth text)) (hcut : Cut rest l rest')
    (hend : ¬ IsEnd rest)
    (hstep : Progress.step offset (.block brace selector depth text) l = .ok (next, ended)) :
    Reached source rest' next := by
  obtain ⟨start, inner, hbegun, hstart, hwithin, hbrace⟩ := h
  rcases step_block_eq_ok_iff.mp hstep with
    ⟨hfits, rfl, -⟩ | ⟨rfl, rfl, -⟩ | ⟨rfl, depth, rfl, rfl, -⟩ | ⟨rfl, rfl, rfl, -⟩
  · have hpiece := hcut.piece_of_not_isEnd hend ((fitsBlock_eq l).symm.trans hfits)
    exact ⟨start, inner, hbegun, hstart, hwithin.piece hpiece, hbrace⟩
  · obtain rfl : rest = '\x7b' :: rest' := hcut.source_eq
    exact ⟨start, inner, hbegun, hstart, hwithin.opens, hbrace⟩
  · obtain rfl : rest = '\x7d' :: rest' := hcut.source_eq
    exact ⟨start, inner, hbegun, hstart, hwithin.closes, hbrace⟩
  · obtain rfl : rest = '\x7d' :: rest' := hcut.source_eq
    exact hbegun.items_of_within hstart hwithin

/-- **Each lexeme that the pass goes on after** is read by the grammar, too. -/
theorem Reached.step (h : Reached source rest state) (hcut : Cut rest l rest')
    (hend : ¬ IsEnd rest) (hat : At source offset rest)
    (hstep : state.step offset l = .ok (next, ended)) : Reached source rest' next := by
  cases state with
  | between => exact h.from_between hcut hend hat hstep
  | prelude first text => exact h.from_prelude hcut hend hat hstep
  | block brace selector depth text => exact h.from_block hcut hend hstep

/-- **A lexeme after which the pass cannot go on** begins with the character to blame. -/
theorem Reached.blames {place : Nat} {fault : Fault} (h : Reached source rest state)
    (hcut : Cut rest l rest') (hstep : state.step offset l = .error (fault, place)) :
    place = offset ∧ Blames source fault.message rest := by
  -- A brace is where its lexeme is, and an unterminated string begins with its quote.
  have hsource : ∀ {c}, l = .plain c → rest = c :: rest' := by
    rintro c rfl
    exact hcut.source_eq
  have hstring : ∀ {text}, l = .unterminated text → IsUnterminated rest := by
    rintro text rfl
    exact hcut.isUnterminated
  cases state with
  | between =>
    rw [step_between] at hstep
    cases hgap : l.isGap with
    | true =>
      rw [if_pos hgap] at hstep
      cases hstep
    | false =>
      rw [hgap, if_neg Bool.false_ne_true] at hstep
      have hbegun := hcut.begun h hgap
      rcases step_prelude_eq_error_iff.mp hstep with
        ⟨hl, heq⟩ | ⟨hl, -, heq⟩ | ⟨⟨text, hl⟩, heq⟩ <;> cases heq
      · rw [hsource hl] at hbegun ⊢
        exact ⟨rfl, .unexpectedClose hbegun⟩
      · obtain rfl := hsource hl
        exact ⟨rfl, .missingSelector h⟩
      · exact ⟨rfl, .stringInPrelude hbegun (hstring hl)⟩
  | prelude first text =>
    obtain ⟨start, hbegun, htext, hstart, -⟩ := h
    rcases step_prelude_eq_error_iff.mp hstep with
      ⟨hl, heq⟩ | ⟨hl, hselector, heq⟩ | ⟨⟨text', hl⟩, heq⟩ <;> cases heq
    · rw [hsource hl] at hbegun ⊢
      exact ⟨rfl, .unexpectedClose hbegun⟩
    · exact absurd hselector (hbegun.trim_ne_nil htext hstart)
    · exact ⟨rfl, .stringInPrelude hbegun (hstring hl)⟩
  | block brace selector depth text =>
    obtain ⟨start, inner, hbegun, hstart, hwithin, -⟩ := h
    obtain ⟨⟨text', hl⟩, heq⟩ := step_block_eq_error_iff.mp hstep
    cases heq
    exact ⟨rfl, .stringInBlock (.intro hbegun hstart hwithin) (hstring hl)⟩

/-- At the end of the source, a comment that does not end changes nothing. -/
theorem rulesFrom_isEnd (hend : IsEnd rest) (found : List Rule) :
    rulesFrom offset state found (lexemes rest) = state.finish.map fun _ => found.reverse := by
  rcases hend with rfl | hopen
  · rfl
  · rw [(Cut.openComment hopen).lexemes_eq]
    cases state <;> rfl

/-- Something is cut off the source. -/
theorem Cut.length_lt (h : Cut rest l rest') : rest'.length < rest.length := by
  rw [h.source_eq, List.length_append]
  exact Nat.lt_add_of_pos_left (List.length_pos_iff.mpr h.isFirst.ne_nil)

/-- **If the pass fails, some character is to blame**, and the pass gives the offset of it. -/
theorem blames_of_rulesFrom {rest : List Char} {state : Progress} {found : List Rule}
    {offset place : Nat} {fault : Fault} (hreached : Reached source rest state)
    (hat : At source offset rest)
    (h : rulesFrom offset state found (lexemes rest) = .error (fault, place)) :
    ∃ after, At source place after ∧ Blames source fault.message after := by
  by_cases hend : IsEnd rest
  · rw [rulesFrom_isEnd hend] at h
    cases state with
    | between => cases h
    | prelude start text =>
      cases h
      obtain ⟨start, hbegun, -, -, hstart⟩ := hreached
      exact ⟨start, hstart, .missingBlock hbegun hend⟩
    | block brace selector depth text =>
      cases h
      obtain ⟨start, inner, hbegun, hstart, hwithin, hbrace⟩ := hreached
      exact ⟨_, hbrace, .unclosedBlock (.intro hbegun hstart hwithin) hend⟩
  · match rest with
    | [] => exact absurd (.inl rfl) hend
    | c :: cs =>
      obtain ⟨l, rest', hcut⟩ := exists_cut c cs
      rw [hcut.lexemes_eq, rulesFrom] at h
      split at h
      · next next ended hstep =>
        have hlength : rest'.length < (c :: cs).length := hcut.length_lt
        exact blames_of_rulesFrom (hreached.step hcut hend hat hstep) (hat.cut hcut) h
      · next e hstep =>
        cases h
        obtain ⟨rfl, hblames⟩ := hreached.blames hcut hstep
        exact ⟨c :: cs, hat, hblames⟩
termination_by rest.length
decreasing_by exact hlength

/-! ## From the grammar to the pass -/

/-- **The pass comes to this state** when this is left of the source. -/
def Comes (source rest : List Char) (state : Progress) : Prop :=
  ∃ offset found, At source offset rest ∧
    rulesFrom 0 .between [] (lexemes source) = rulesFrom offset state found (lexemes rest)

theorem Comes.step (h : Comes source rest state) (hcut : Cut rest l rest')
    (hstep : ∀ offset, At source offset rest → ∃ ended, state.step offset l = .ok (next, ended)) :
    Comes source rest' next := by
  obtain ⟨offset, found, hat, hpass⟩ := h
  obtain ⟨ended, hended⟩ := hstep offset hat
  refine ⟨_, ended ++ found, hat.cut hcut, ?_⟩
  rw [hpass, hcut.lexemes_eq, rulesFrom_cons hended]

/-- The pass comes to where the blanks, comments and rules end. -/
theorem comes_of_items (h : Items source rest) : Comes source rest .between := by
  induction h with
  | refl => exact ⟨0, [], ⟨[], rfl, rfl⟩, rfl⟩
  | tail _ hitem ih =>
    cases hitem with
    | blank hc =>
      obtain ⟨hquote, hslash⟩ := plain_of_isBlank hc
      refine ih.step (.plain hquote (fun h => hslash (beginsComment_iff.mp h).1)) ?_
      exact fun offset _ => ⟨[], if_pos hc⟩
    | comment hcomment => exact ih.step (.comment hcomment _) (fun _ _ => ⟨[], rfl⟩)
    | rule hrule =>
      obtain ⟨offset, found, ⟨before, rfl, rfl⟩, hpass⟩ := ih
      obtain ⟨ls, rule, hls, hisRule⟩ := hrule.exists_isRule
      refine ⟨_, rule :: found, ⟨before ++ texts ls, ?_, List.length_append⟩, ?_⟩
      · rw [source_eq_of_lexemes hls, List.append_assoc]
      · rw [hpass, hls, rulesFrom_isRule hisRule]

/-- The source does not end where a rule starts. -/
theorem Begun.ne_of_isEnd {start : List Char} (h : Begun source start rest) (hend : IsEnd rest) :
    start ≠ rest := by
  rintro rfl
  cases h with
  | intro hitems hblank hcomment =>
    rcases hend with hnil | ⟨body, -, hopen⟩
    · cases hnil
    · rw [hopen] at hcomment
      exact hcomment (List.prefix_append ['/', '*'] body)

/-- The pass comes to where the prelude ends, if some of it has been read. -/
theorem Begun.comes {start : List Char} (h : Begun source start rest) (hne : start ≠ rest) :
    ∃ offset text, text ≠ [] ∧ start = text.reverse ++ rest ∧ At source offset start ∧
      Comes source rest (.prelude offset text) := by
  cases h with
  | @intro c cs _ hitems hblank hcomment hprelude =>
    induction hprelude with
    | refl => exact absurd rfl hne
    | @tail mid rest _ hpiece ih =>
      obtain ⟨l, hcut, hfits⟩ := hpiece.exists_cut
      by_cases hmid : c :: cs = mid
      · subst hmid
        obtain ⟨hbegins, hdirective⟩ := hcut.begins_of_fits hfits rfl hblank hcomment
        obtain ⟨d, ds, htext, -⟩ := exists_of_begins hbegins
        obtain ⟨offset, found, hat, hpass⟩ := comes_of_items hitems
        refine ⟨offset, l.text.reverse, by simp [htext], by simpa using hcut.source_eq, hat, ?_⟩
        refine ⟨_, found, hat.cut hcut, ?_⟩
        rw [hpass, hcut.lexemes_eq, rulesFrom_begins hbegins hfits]
      · obtain ⟨offset, text, htext, hstart, hat, hcomes⟩ := ih hmid
        refine ⟨offset, l.text.reverse ++ text, List.append_ne_nil_of_right_ne_nil _ htext, ?_, hat,
          hcomes.step hcut (fun _ _ => ⟨[], step_prelude_eq_ok_iff.mpr (.inl ⟨?_, rfl, rfl⟩)⟩)⟩
        · rw [hstart, hcut.source_eq]
          simp
        · rw [isDirective_of_start htext hstart]
          exact hfits

/-- A brace is a lexeme by itself. -/
theorem cut_brace {c : Char} (hc : c = '\x7b' ∨ c = '\x7d') (cs : List Char) :
    Cut (c :: cs) (.plain c) cs := by
  rcases hc with rfl | rfl <;> exact .plain rfl (fun h => nomatch (beginsComment_iff.mp h).1)

/-- From the beginning of a block, the pass comes to every place inside it. -/
theorem Within.comes {inner text : List Char} {selector : String} {depth : Nat}
    (h : Within inner depth rest) (hinner : Comes source inner (.block offset selector 0 text)) :
    ∃ text', Comes source rest (.block offset selector depth text') := by
  induction h with
  | nil => exact ⟨text, hinner⟩
  | piece _ hpiece ih =>
    obtain ⟨text', hcomes⟩ := ih
    obtain ⟨l, hcut, hfits⟩ := hpiece.exists_cut
    exact ⟨_, hcomes.step hcut (fun _ _ =>
      ⟨[], step_block_eq_ok_iff.mpr (.inl ⟨(fitsBlock_eq l).trans hfits, rfl, rfl⟩)⟩)⟩
  | opens _ ih =>
    obtain ⟨text', hcomes⟩ := ih
    exact ⟨_, hcomes.step (cut_brace (.inl rfl) _) (fun _ _ => ⟨[], rfl⟩)⟩
  | closes _ ih =>
    obtain ⟨text', hcomes⟩ := ih
    exact ⟨_, hcomes.step (cut_brace (.inr rfl) _) (fun _ _ => ⟨[], rfl⟩)⟩

/-- The pass comes to every place inside the block of a rule. -/
theorem Opened.comes {brace : List Char} (h : Opened source brace rest) :
    ∃ offset selector depth text, At source offset brace ∧
      Comes source rest (.block offset selector depth text) := by
  cases h with
  | @intro start inner _ depth hbegun hstart hwithin =>
    obtain ⟨first, text, htext, hread, -, offset, found, hat, hpass⟩ := hbegun.comes hstart
    have hinner : Comes source inner (.block offset (String.ofList (Text.trim text.reverse)) 0
        ('\x7b' :: text)) := by
      refine ⟨_, found, hat.cut (cut_brace (.inl rfl) _), ?_⟩
      have hstep : Progress.step offset (.prelude first text) (.plain '\x7b') = .ok (_, []) :=
        step_prelude_eq_ok_iff.mpr (.inr (.inr ⟨rfl, hbegun.trim_ne_nil htext hread, rfl, rfl⟩))
      rw [hpass, (cut_brace (.inl rfl) inner).lexemes_eq, rulesFrom_cons hstep]
      rfl
    obtain ⟨text', hcomes⟩ := hwithin.comes hinner
    exact ⟨offset, _, depth, text', hat, hcomes⟩

/-- The pass fails where it comes to a lexeme that it cannot go on after. -/
theorem Comes.fails {fault : Fault} (h : Comes source rest state) (hcut : Cut rest l rest')
    (hstep : ∀ offset, state.step offset l = .error (fault, offset)) :
    ∃ offset, At source offset rest ∧
      rulesFrom 0 .between [] (lexemes source) = .error (fault, offset) := by
  obtain ⟨offset, found, hat, hpass⟩ := h
  refine ⟨offset, hat, ?_⟩
  rw [hpass, hcut.lexemes_eq, rulesFrom, hstep]

/-- The pass fails where it comes to the end of the source and something is missing. -/
theorem Comes.fails_of_isEnd {e : Located} (h : Comes source rest state) (hend : IsEnd rest)
    (hfinish : state.finish = .error e) :
    rulesFrom 0 .between [] (lexemes source) = .error e := by
  obtain ⟨offset, found, -, hpass⟩ := h
  rw [hpass, rulesFrom_isEnd hend, hfinish]
  rfl

/-- The pass fails in a prelude, whether or not some of it has been read. -/
theorem Begun.fails {start : List Char} {fault : Fault} (h : Begun source start rest)
    (hcut : Cut rest l rest') (hgap : l.isGap = false)
    (hstep : ∀ offset first text, Progress.step offset (.prelude first text) l
      = .error (fault, offset)) :
    ∃ offset, At source offset rest ∧
      rulesFrom 0 .between [] (lexemes source) = .error (fault, offset) := by
  by_cases hstart : start = rest
  · subst hstart
    cases h with
    | intro hitems =>
      refine (comes_of_items hitems).fails hcut (fun offset => ?_)
      rw [step_between, hgap, if_neg Bool.false_ne_true, hstep]
  · obtain ⟨first, text, -, -, -, hcomes⟩ := h.comes hstart
    exact hcomes.fails hcut (fun offset => hstep offset first text)

/-- **Where a character is to blame, the pass fails**, and gives the offset of that character. -/
theorem Blames.exists_rulesFrom_eq {message : String} {place : List Char}
    (h : Blames source message place) :
    ∃ (fault : Fault) (offset : Nat), fault.message = message ∧ At source offset place ∧
      rulesFrom 0 .between [] (lexemes source) = .error (fault, offset) := by
  cases h with
  | unexpectedClose hbegun =>
    exact ⟨.unexpectedClose, (hbegun.fails (cut_brace (.inr rfl) _) rfl (fun _ _ _ => rfl)).imp
      fun _ h => ⟨rfl, h⟩⟩
  | missingSelector hitems =>
    exact ⟨.missingSelector, ((comes_of_items hitems).fails (cut_brace (.inl rfl) _)
      (fun _ => rfl)).imp fun _ h => ⟨rfl, h⟩⟩
  | unclosedBlock hopened hend =>
    obtain ⟨offset, selector, depth, text, hat, hcomes⟩ := hopened.comes
    exact ⟨.unclosedBlock, offset, rfl, hat, hcomes.fails_of_isEnd hend rfl⟩
  | stringInPrelude hbegun hstring =>
    exact ⟨.unterminatedString, (hbegun.fails hstring.cut rfl (fun _ _ _ => rfl)).imp
      fun _ h => ⟨rfl, h⟩⟩
  | stringInBlock hopened hstring =>
    obtain ⟨offset, selector, depth, text, -, hcomes⟩ := hopened.comes
    exact ⟨.unterminatedString, (hcomes.fails hstring.cut (fun _ => rfl)).imp
      fun _ h => ⟨rfl, h⟩⟩
  | missingBlock hbegun hend =>
    -- A rule does not start with a comment, so that some of the prelude has been read.
    obtain ⟨offset, text, -, -, hat, hcomes⟩ := hbegun.comes (hbegun.ne_of_isEnd hend)
    exact ⟨.missingBlock, offset, rfl, hat, hcomes.fails_of_isEnd hend rfl⟩

/-- There is a character to blame. -/
theorem Blames.ne_nil {message : String} {place : List Char} (h : Blames source message place) :
    place ≠ [] := by
  cases h with
  | unexpectedClose => exact List.cons_ne_nil _ _
  | missingSelector => exact List.cons_ne_nil _ _
  | unclosedBlock hopened => cases hopened; exact List.cons_ne_nil _ _
  | stringInPrelude _ hstring | stringInBlock _ hstring =>
    obtain ⟨quote, cs, -, rfl, -⟩ := hstring
    exact List.cons_ne_nil _ _
  | missingBlock hbegun => cases hbegun; exact List.cons_ne_nil _ _

end Source

/-- The wording tells the faults apart. -/
theorem Fault.eq_of_message {fault fault' : Fault} (h : fault.message = fault'.message) :
    fault = fault' := by
  revert h
  cases fault <;> cases fault' <;> decide

/-- Reading fails where the pass does, and the error has the line and the column of the offset. -/
theorem parse_eq_error_iff {source : String} {e : ParseError} :
    parse source = .error e ↔ ∃ offset,
      rulesFrom 0 .between [] (lexemes source.toList) = .error (e.fault, offset) ∧
        e.line = lineAt source.toList offset ∧ e.column = columnAt source.toList offset := by
  unfold parse
  dsimp only
  constructor
  · intro h
    split at h
    · cases h
    · next fault offset hpass =>
      cases h
      exact ⟨offset, hpass, rfl, rfl⟩
  · rintro ⟨offset, hpass, hline, hcolumn⟩
    rw [hpass]
    dsimp only
    rw [← hline, ← hcolumn]

/-- **A source is refused if and only if one of its characters is to blame.** The error has the line
and the column of that character, and its wording says what is wrong with it. -/
theorem parse_error_iff_blames (source : String) (e : ParseError) :
    parse source = .error e ↔
      ∃ before c after, source.toList = before ++ c :: after ∧ EndsAt before e.line e.column ∧
        Source.Blames source.toList e.fault.message (c :: after) := by
  rw [parse_eq_error_iff]
  constructor
  · rintro ⟨offset, hpass, hplace⟩
    have hbetween : Source.Reached source.toList source.toList .between :=
      Relation.ReflTransGen.refl
    obtain ⟨place, ⟨before, hsource, rfl⟩, hblames⟩ :=
      Source.blames_of_rulesFrom hbetween ⟨[], rfl, rfl⟩ hpass
    obtain ⟨c, after, rfl⟩ := List.exists_cons_of_ne_nil hblames.ne_nil
    refine ⟨before, c, after, hsource, ?_, hblames⟩
    rw [hsource] at hplace
    exact endsAt_iff_lineAt.mpr hplace
  · rintro ⟨before, c, after, hsource, hplace, hblames⟩
    obtain ⟨fault, offset, hmessage, hat, hpass⟩ := hblames.exists_rulesFrom_eq
    obtain rfl : offset = before.length := hat.unique ⟨before, hsource, rfl⟩
    rw [Fault.eq_of_message hmessage] at hpass
    refine ⟨before.length, hpass, ?_⟩
    rw [hsource]
    exact endsAt_iff_lineAt.mp hplace

-- Columns count characters, and of the two open blocks the outer one is to blame.
example : parse "/* é */\n.ä \x7b .b \x7b" = .error ⟨.unclosedBlock, 2, 4⟩ := by decide

end Pagewright.Stylesheet
