import Pagewright.Stylesheet.Lexeme

/-!
# Lexemes in their surroundings

A lexeme is the same lexeme wherever it stands, nearly. What a string or a closed comment is does
not depend on what comes after it. A single character does depend on the next one, since a slash
before a star begins a comment. And a string or a comment without an end goes on to the end of the
source.

The first lexeme of a source is told by its characters alone (`Source.Cut`): a comment ends where it
first can, and a string at the first quote of its kind that is not escaped. So a source can be cut
behind any lexeme (`exists_of_lexemes_append`), and lexemes that are taken out of a source stay what
they are in any other source, if the last of them is a character other than a slash
(`lexemes_append_of_ends`).
-/

namespace Pagewright.Stylesheet

namespace Lexeme

/-- The source text of lexemes that follow each other. -/
def texts (ls : List Lexeme) : List Char :=
  ls.flatMap Lexeme.text

@[simp] theorem texts_nil : texts [] = [] := rfl

@[simp] theorem texts_cons (l : Lexeme) (ls : List Lexeme) : texts (l :: ls) = l.text ++ texts ls :=
  List.flatMap_cons

@[simp] theorem texts_append (ls ls' : List Lexeme) : texts (ls ++ ls') = texts ls ++ texts ls' :=
  List.flatMap_append

/-- The lexeme is the first one of a source in which this rest comes after it. -/
def Precedes (l : Lexeme) (rest : List Char) : Prop :=
  lexemes (l.text ++ rest) = l :: lexemes rest

end Lexeme

open Lexeme

/-! ## One character -/

/-- The character begins a string. -/
def isQuote (c : Char) : Bool :=
  c = '"' || c = '\''

/-- A comment goes on unless it ends here. -/
theorem lexemesFrom_comment_cons {seen cs : List Char} {c : Char}
    (h : ¬ (c = '*' ∧ cs.head? = some '/')) :
    lexemesFrom (.comment seen) (c :: cs) = lexemesFrom (.comment (c :: seen)) cs := by
  rw [lexemesFrom.eq_def]
  split <;> simp_all

/-- A string goes on unless it ends here, or the next character is escaped. -/
theorem lexemesFrom_quoted_cons {quote : Char} {seen cs : List Char} {c : Char}
    (h : ¬ (c = '\\' ∧ cs ≠ [])) :
    lexemesFrom (.quoted quote seen) (c :: cs)
      = if c = '\n' then [.unterminated (seen.reverse ++ c :: cs)]
        else if c = quote then .quoted (c :: seen).reverse :: lexemes cs
        else lexemesFrom (.quoted quote (c :: seen)) cs := by
  rw [lexemesFrom.eq_def]
  split <;> simp_all [lexemes]

/-- A character by itself is a lexeme, unless it begins a string or a comment. -/
theorem precedes_plain {c : Char} {rest : List Char} (hquote : isQuote c = false)
    (hcomment : ¬ (c = '/' ∧ rest.head? = some '*')) : (Lexeme.plain c).Precedes rest := by
  unfold Precedes lexemes
  show lexemesFrom .plain (c :: rest) = _
  rw [lexemesFrom.eq_def]
  unfold isQuote at hquote
  split <;> simp_all

namespace Source

/-! ## Comments and strings -/

/-- **A comment** ends where it first can. -/
def IsComment (text : List Char) : Prop :=
  ∃ body, ¬ ['*', '/'] <:+: body ∧ text = '/' :: '*' :: (body ++ ['*', '/'])

/-- A comment that does not end. -/
def IsOpenComment (text : List Char) : Prop :=
  ∃ body, ¬ ['*', '/'] <:+: body ∧ text = '/' :: '*' :: body

/-- **What stands between two quotes**: a quote of this kind and a line feed only behind a
backslash. -/
inductive Inside (quote : Char) : List Char → Prop where
  | nil : Inside quote []
  | escaped (c : Char) {cs : List Char} (h : Inside quote cs) : Inside quote ('\\' :: c :: cs)
  | char {c : Char} {cs : List Char} (hquote : c ≠ quote) (hescape : c ≠ '\\') (hline : c ≠ '\n')
      (h : Inside quote cs) : Inside quote (c :: cs)

/-- **A string** with its quotes. -/
def IsString (text : List Char) : Prop :=
  ∃ quote body, isQuote quote = true ∧ Inside quote body ∧ text = quote :: (body ++ [quote])

/-- The source begins with a comment, whether or not it ends. -/
def BeginsComment (source : List Char) : Prop :=
  ['/', '*'] <+: source

/-! ## Where comments and strings end -/

theorem beginsComment_iff {c : Char} {cs : List Char} :
    BeginsComment (c :: cs) ↔ c = '/' ∧ cs.head? = some '*' := by
  unfold BeginsComment
  rw [List.cons_prefix_cons, List.singleton_prefix_iff_head?_eq_some, eq_comm]

/-- A comment does not end in a text if it does not end at its beginning nor later on. -/
theorem not_ends_cons {c : Char} {cs : List Char} :
    ¬ ['*', '/'] <:+: c :: cs ↔ ¬ (c = '*' ∧ cs.head? = some '/') ∧ ¬ ['*', '/'] <:+: cs := by
  rw [List.infix_cons_iff, not_or, List.cons_prefix_cons,
    List.singleton_prefix_iff_head?_eq_some, eq_comm]

/-- A comment ends in a text, or it does not. -/
theorem exists_end (cs : List Char) :
    ¬ ['*', '/'] <:+: cs ∨
      ∃ body rest, ¬ ['*', '/'] <:+: body ∧ cs = body ++ '*' :: '/' :: rest := by
  induction cs with
  | nil => exact .inl (by simp)
  | cons c cs ih =>
    by_cases hend : c = '*' ∧ cs.head? = some '/'
    · obtain ⟨rfl, hslash⟩ := hend
      obtain ⟨rest, rfl⟩ := List.head?_eq_some_iff.mp hslash
      exact .inr ⟨[], rest, by simp, rfl⟩
    · rcases ih with hopen | ⟨body, rest, hbody, rfl⟩
      · exact .inl (not_ends_cons.mpr ⟨hend, hopen⟩)
      · refine .inr ⟨c :: body, rest, not_ends_cons.mpr ⟨fun h => hend ⟨h.1, ?_⟩, hbody⟩, rfl⟩
        rw [List.head?_append, h.2]
        rfl

/-- **A comment is a lexeme** if it ends. -/
theorem lexemesFrom_comment_append {body : List Char} (h : ¬ ['*', '/'] <:+: body)
    (seen rest : List Char) :
    lexemesFrom (.comment seen) (body ++ '*' :: '/' :: rest)
      = .comment (seen.reverse ++ body ++ ['*', '/']) :: lexemes rest := by
  induction body generalizing seen with
  | nil => simp [lexemesFrom, lexemes]
  | cons c body ih =>
    obtain ⟨hend, hbody⟩ := not_ends_cons.mp h
    have hgoes : ¬ (c = '*' ∧ (body ++ '*' :: '/' :: rest).head? = some '/') := by
      cases body with
      | nil => simp
      | cons d body => exact hend
    rw [List.cons_append, lexemesFrom_comment_cons hgoes, ih hbody]
    simp

/-- A comment that does not end is a lexeme, too. -/
theorem lexemesFrom_comment_open {body : List Char} (h : ¬ ['*', '/'] <:+: body)
    (seen : List Char) :
    lexemesFrom (.comment seen) body = [.comment (seen.reverse ++ body)] := by
  induction body generalizing seen with
  | nil => rw [lexemesFrom, List.append_nil]
  | cons c body ih =>
    obtain ⟨hend, hbody⟩ := not_ends_cons.mp h
    rw [lexemesFrom_comment_cons hend, ih hbody]
    simp

/-- **A string is a lexeme.** -/
theorem lexemesFrom_quoted_append {quote : Char} (hquote : isQuote quote = true)
    {body : List Char} (h : Inside quote body) (seen rest : List Char) :
    lexemesFrom (.quoted quote seen) (body ++ quote :: rest)
      = .quoted (seen.reverse ++ body ++ [quote]) :: lexemes rest := by
  have hspecial : quote ≠ '\\' ∧ quote ≠ '\n' := by
    constructor <;> rintro rfl <;> cases hquote
  induction h generalizing seen with
  | nil =>
    rw [List.nil_append, lexemesFrom_quoted_cons (fun h => hspecial.1 h.1), if_neg hspecial.2,
      if_pos rfl]
    simp
  | @escaped c cs _ ih =>
    rw [List.cons_append, List.cons_append, lexemesFrom, ih]
    simp
  | @char c cs hc hescape hline _ ih =>
    rw [List.cons_append, lexemesFrom_quoted_cons (fun h => hescape h.1), if_neg hline, if_neg hc,
      ih]
    simp

/-- A string ends, or it takes the rest of the source with it. -/
theorem exists_close {quote : Char} (hquote : isQuote quote = true) (seen cs : List Char) :
    (∃ body rest, Inside quote body ∧ cs = body ++ quote :: rest) ∨
      lexemesFrom (.quoted quote seen) cs = [.unterminated (seen.reverse ++ cs)] := by
  match cs with
  | [] =>
    right
    rw [lexemesFrom, List.append_nil]
  | c :: cs =>
    by_cases hescape : c = '\\' ∧ cs ≠ []
    · obtain ⟨rfl, hcs⟩ := hescape
      obtain ⟨d, cs, rfl⟩ := List.exists_cons_of_ne_nil hcs
      rcases exists_close hquote (d :: '\\' :: seen) cs with ⟨body, rest, hbody, rfl⟩ | hopen
      · exact .inl ⟨'\\' :: d :: body, rest, .escaped d hbody, rfl⟩
      · right
        rw [lexemesFrom, hopen]
        simp
    · rw [lexemesFrom_quoted_cons hescape]
      by_cases hline : c = '\n'
      · exact .inr (if_pos hline)
      · by_cases hend : c = quote
        · subst hend
          exact .inl ⟨[], cs, .nil, rfl⟩
        · rw [if_neg hline, if_neg hend]
          rcases exists_close hquote (c :: seen) cs with ⟨body, rest, hbody, rfl⟩ | hopen
          · refine .inl ⟨c :: body, rest, .char hend (fun h => hescape ⟨h, ?_⟩) hline hbody, rfl⟩
            simp
          · right
            rw [hopen]
            simp
termination_by cs.length

/-! ## The first lexeme -/

/-- **The first lexeme of a source**, told by its characters, and the rest behind it. -/
inductive Cut : (source : List Char) → Lexeme → (rest : List Char) → Prop where
  | comment {text : List Char} (h : IsComment text) (rest : List Char) :
      Cut (text ++ rest) (.comment text) rest
  | openComment {text : List Char} (h : IsOpenComment text) : Cut text (.comment text) []
  | string {text : List Char} (h : IsString text) (rest : List Char) :
      Cut (text ++ rest) (.quoted text) rest
  | unterminated {text : List Char} (h : lexemes text = [.unterminated text]) :
      Cut text (.unterminated text) []
  | plain {c : Char} {rest : List Char} (hquote : isQuote c = false)
      (hcomment : ¬ BeginsComment (c :: rest)) : Cut (c :: rest) (.plain c) rest

/-- A quote begins a string. -/
theorem lexemes_cons_quote {quote : Char} (hquote : isQuote quote = true) (cs : List Char) :
    lexemes (quote :: cs) = lexemesFrom (.quoted quote [quote]) cs := by
  have hor : quote = '"' ∨ quote = '\'' := by
    simpa [isQuote] using hquote
  rcases hor with rfl | rfl <;> simp [lexemes, lexemesFrom]

/-- **What is cut off a source is its first lexeme.** -/
theorem Cut.lexemes_eq {source rest : List Char} {l : Lexeme} (h : Cut source l rest) :
    lexemes source = l :: lexemes rest := by
  cases h with
  | comment h rest =>
    obtain ⟨body, hbody, rfl⟩ := h
    rw [List.cons_append, List.cons_append, List.append_assoc, lexemes, lexemesFrom]
    exact lexemesFrom_comment_append hbody ['*', '/'] rest
  | openComment h =>
    obtain ⟨body, hbody, rfl⟩ := h
    rw [lexemes, lexemesFrom]
    exact lexemesFrom_comment_open hbody ['*', '/']
  | string h rest =>
    obtain ⟨quote, body, hquote, hbody, rfl⟩ := h
    rw [List.cons_append, List.append_assoc, lexemes_cons_quote hquote]
    exact lexemesFrom_quoted_append hquote hbody [quote] rest
  | unterminated h => exact h
  | plain hquote hcomment =>
    exact precedes_plain hquote (fun h => hcomment (beginsComment_iff.mpr h))

/-- The text that is cut off a source. -/
theorem Cut.source_eq {source rest : List Char} {l : Lexeme} (h : Cut source l rest) :
    source = l.text ++ rest := by
  cases h with
  | comment h rest => rfl
  | openComment h => exact (List.append_nil _).symm
  | string h rest => rfl
  | unterminated h => exact (List.append_nil _).symm
  | plain hquote hcomment => rfl

/-- A comment can be cut off a source that begins with one. -/
theorem exists_cut_comment (cs : List Char) :
    ∃ text rest, Cut ('/' :: '*' :: cs) (.comment text) rest := by
  rcases exists_end cs with hopen | ⟨body, rest, hbody, rfl⟩
  · exact ⟨_, _, .openComment ⟨cs, hopen, rfl⟩⟩
  · have hcut := Cut.comment ⟨body, hbody, rfl⟩ rest
    rw [List.cons_append, List.cons_append, List.append_assoc] at hcut
    exact ⟨_, _, hcut⟩

/-- **A lexeme can be cut off every source.** -/
theorem exists_cut (c : Char) (cs : List Char) : ∃ l rest, Cut (c :: cs) l rest := by
  by_cases hcomment : BeginsComment (c :: cs)
  · obtain ⟨rfl, hstar⟩ := beginsComment_iff.mp hcomment
    obtain ⟨cs, rfl⟩ := List.head?_eq_some_iff.mp hstar
    obtain ⟨text, rest, hcut⟩ := exists_cut_comment cs
    exact ⟨_, _, hcut⟩
  · cases hquote : isQuote c with
    | false => exact ⟨_, _, .plain hquote hcomment⟩
    | true =>
      rcases exists_close hquote [c] cs with ⟨body, rest, hbody, rfl⟩ | hopen
      · have hcut := Cut.string ⟨c, body, hquote, hbody, rfl⟩ rest
        rw [List.cons_append, List.append_assoc] at hcut
        exact ⟨_, _, hcut⟩
      · exact ⟨_, _, .unterminated ((lexemes_cons_quote hquote cs).trans hopen)⟩

/-- **The first lexeme of a source is cut off it.** -/
theorem cut_of_lexemes {source : List Char} {l : Lexeme} {ls : List Lexeme}
    (h : lexemes source = l :: ls) : ∃ rest, Cut source l rest ∧ lexemes rest = ls := by
  match source with
  | [] => cases h
  | c :: cs =>
    obtain ⟨l', rest, hcut⟩ := exists_cut c cs
    rw [hcut.lexemes_eq] at h
    cases h
    exact ⟨rest, hcut, rfl⟩

end Source

open Source

/-- **The first lexeme of a source** and the rest behind it. The lexeme can stand in front of any
other source, or it has no end and takes the whole source, or it is a slash that does not begin a
comment. -/
structure IsFirst (cs : List Char) (l : Lexeme) (rest : List Char) : Prop where
  source : cs = l.text ++ rest
  lexemes : lexemes cs = l :: lexemes rest
  ne_nil : l.text ≠ []
  quoted : ∀ text, l = .quoted text → text.head?.any isQuote = true
  moves : (∀ rest', l.Precedes rest') ∨ ((∀ c, l ≠ .plain c) ∧ rest = []) ∨
    (l = .plain '/' ∧ rest.head? ≠ some '*')

/-- **What is cut off a source is its first lexeme**, and most of it can be moved. -/
theorem Source.Cut.isFirst {source rest : List Char} {l : Lexeme} (h : Cut source l rest) :
    IsFirst source l rest := by
  cases h with
  | comment h rest =>
    refine ⟨rfl, (Cut.comment h rest).lexemes_eq, ?_, nofun, ?_⟩
    · obtain ⟨body, -, rfl⟩ := h
      exact nofun
    · exact .inl fun rest' => (Cut.comment h rest').lexemes_eq
  | openComment h =>
    refine ⟨(List.append_nil _).symm, (Cut.openComment h).lexemes_eq, ?_, nofun, ?_⟩
    · obtain ⟨body, -, rfl⟩ := h
      exact nofun
    · exact .inr (.inl ⟨nofun, rfl⟩)
  | string h rest =>
    refine ⟨rfl, (Cut.string h rest).lexemes_eq, ?_, ?_, ?_⟩
    · obtain ⟨quote, body, -, -, rfl⟩ := h
      exact nofun
    · obtain ⟨quote, body, hquote, -, rfl⟩ := h
      rintro text ⟨⟩
      exact hquote
    · exact .inl fun rest' => (Cut.string h rest').lexemes_eq
  | unterminated h =>
    refine ⟨(List.append_nil _).symm, h, ?_, nofun, .inr (.inl ⟨nofun, rfl⟩)⟩
    rintro rfl
    cases h
  | @plain c rest hquote hcomment =>
    refine ⟨rfl, (Cut.plain hquote hcomment).lexemes_eq, nofun, nofun, ?_⟩
    by_cases hslash : c = '/'
    · subst hslash
      exact .inr (.inr ⟨rfl, fun hstar => hcomment (beginsComment_iff.mpr ⟨rfl, hstar⟩)⟩)
    · exact .inl (fun rest' => precedes_plain hquote (fun h => hslash h.1))

/-- The rest of a source behind its first lexeme. -/
theorem exists_of_lexemes_cons {cs : List Char} {l : Lexeme} {ls : List Lexeme}
    (h : lexemes cs = l :: ls) : ∃ rest, IsFirst cs l rest ∧ lexemes rest = ls := by
  obtain ⟨rest, hcut, hrest⟩ := cut_of_lexemes h
  exact ⟨rest, hcut.isFirst, hrest⟩

/-! ## Cutting a source -/

/-- **Nothing is lost**: the lexemes of a source put together are the source. -/
theorem texts_lexemes (cs : List Char) : texts (lexemes cs) = cs := by
  match cs with
  | [] => rfl
  | c :: cs =>
    obtain ⟨l, rest, hcut⟩ := exists_cut c cs
    have hfirst := hcut.isFirst
    have hlength : rest.length < (c :: cs).length := by
      have hpos := List.length_pos_iff.mpr hfirst.ne_nil
      rw [hfirst.source, List.length_append]
      omega
    rw [hfirst.lexemes, texts_cons, texts_lexemes rest, ← hfirst.source]
termination_by cs.length
decreasing_by exact hlength

/-- **A source can be cut behind any of its lexemes.** -/
theorem exists_of_lexemes_append {cs : List Char} {ls ls' : List Lexeme}
    (h : lexemes cs = ls ++ ls') : ∃ rest, cs = texts ls ++ rest ∧ lexemes rest = ls' := by
  induction ls generalizing cs with
  | nil => exact ⟨cs, rfl, h⟩
  | cons l ls ih =>
    obtain ⟨between, hfirst, hbetween⟩ := exists_of_lexemes_cons h
    obtain ⟨rest, rfl, hrest⟩ := ih hbetween
    refine ⟨rest, ?_, hrest⟩
    rw [texts_cons, List.append_assoc]
    exact hfirst.source

/-- Every string begins with a quote. -/
theorem head?_of_quoted_mem {cs text : List Char} (h : .quoted text ∈ lexemes cs) :
    text.head?.any isQuote = true := by
  obtain ⟨before, after, hcs⟩ := List.append_of_mem h
  obtain ⟨rest, -, hrest⟩ := exists_of_lexemes_append hcs
  obtain ⟨behind, hfirst, -⟩ := exists_of_lexemes_cons hrest
  exact hfirst.quoted text rfl

/-- **Lexemes stay what they are in any other source**, if the last of them is a character other
than a slash. -/
theorem lexemes_append_of_ends {cs : List Char} {ls ls' : List Lexeme} {c : Char} (hc : c ≠ '/')
    (h : lexemes cs = ls ++ .plain c :: ls') (rest : List Char) :
    lexemes (texts (ls ++ [.plain c]) ++ rest) = ls ++ .plain c :: lexemes rest := by
  induction ls generalizing cs with
  | nil =>
    obtain ⟨between, hfirst, -⟩ := exists_of_lexemes_cons h
    rcases hfirst.moves with hprecedes | hunending | hslash
    · exact hprecedes rest
    · exact absurd rfl (hunending.1 c)
    · cases hslash.1
      exact absurd rfl hc
  | cons l ls ih =>
    obtain ⟨between, hfirst, hbetween⟩ := exists_of_lexemes_cons h
    -- What comes after the first lexeme begins as it did in the source.
    have hsource : between = texts (ls ++ [.plain c]) ++ texts ls' := by
      rw [← texts_append, ← List.append_cons, ← texts_lexemes between, hbetween]
      rfl
    have hhead : (texts (ls ++ [.plain c]) ++ rest).head? = between.head? := by
      have hne : texts (ls ++ [.plain c]) ≠ [] := by simp [Lexeme.text]
      obtain ⟨d, ds, hcons⟩ := List.exists_cons_of_ne_nil hne
      rw [hsource, hcons]
      rfl
    have hprecedes : l.Precedes (texts (ls ++ [.plain c]) ++ rest) := by
      rcases hfirst.moves with hprecedes | hunending | ⟨rfl, hstar⟩
      · exact hprecedes _
      · rw [hunending.2] at hbetween
        cases ls <;> cases hbetween
      · refine precedes_plain rfl (fun h => hstar ?_)
        rw [← hhead]
        exact h.2
    rw [List.cons_append, texts_cons, List.append_assoc, hprecedes, ih hbetween]
    rfl

/-- Characters that begin neither strings nor comments are lexemes one by one. -/
theorem lexemes_append_of_plain {cs : List Char}
    (h : ∀ c ∈ cs, isQuote c = false ∧ c ≠ '/') (rest : List Char) :
    lexemes (cs ++ rest) = cs.map .plain ++ lexemes rest := by
  induction cs with
  | nil => rfl
  | cons c cs ih =>
    obtain ⟨hquote, hslash⟩ := h c List.mem_cons_self
    have hfirst : (Lexeme.plain c).Precedes (cs ++ rest) :=
      precedes_plain hquote (fun hcomment => hslash hcomment.1)
    exact hfirst.trans (congrArg _ (ih (fun x hx => h x (List.mem_cons_of_mem _ hx))))

end Pagewright.Stylesheet
