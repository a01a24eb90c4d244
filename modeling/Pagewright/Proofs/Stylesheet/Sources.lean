import Mathlib.Logic.Relation
import Pagewright.Proofs.Stylesheet.Texts

/-!
# The grammar of a stylesheet, character by character

What a stylesheet is can be said without lexemes, and without a state that tells how far one has
read. A source is cut into blanks, comments and rules (`Source.Splits`). A rule is a prelude and a
semicolon, or a prelude and a block, whose braces are matched as brackets are in any grammar: what
stands between two of them is balanced itself (`Source.Balanced`). Braces and semicolons inside
comments and strings do not count, as these are taken as wholes (`Source.Piece`).

Each symbol of the grammar relates a source to the rest that is left when the symbol has been taken
from its front. For most symbols the rest does not matter. But a slash stands for itself only if
there is no star behind it, and so it has to be known what comes next.

The grammar and the reader agree. What is read can be cut (`Source.splits_of_parse`), and what can
be cut is read, as rules with the same texts (`Source.exists_of_splits`). Both ways lead through the
lexemes: the first lexeme of a source is told by its characters alone (`Source.Cut`).
-/

namespace Pagewright.Stylesheet

/-- Where there is nothing, there is no rule. -/
theorem IsSheet.eq_nil {rules : List Rule} (h : IsSheet [] rules) : rules = [] := by
  have hrules : rulesFrom 0 .between [] [] = .ok ([].reverse ++ rules) := rulesFrom_isSheet h
  cases hrules
  rfl

namespace Source

open Lexeme

/-! ## Pieces and rules -/

/-- **A piece of a rule** that is neither a brace nor, in a directive, the semicolon: a comment, a
string, or a character that begins neither. -/
inductive Piece (inDirective : Bool) : (source rest : List Char) → Prop where
  | comment {text : List Char} (h : IsComment text) (rest : List Char) :
      Piece inDirective (text ++ rest) rest
  | string {text : List Char} (h : IsString text) (rest : List Char) :
      Piece inDirective (text ++ rest) rest
  | char {c : Char} {rest : List Char} (hquote : isQuote c = false)
      (hcomment : ¬ BeginsComment (c :: rest)) (hbraces : c ≠ '\x7b' ∧ c ≠ '\x7d')
      (hend : inDirective = true → c ≠ ';') : Piece inDirective (c :: rest) rest

/-- Any number of pieces. -/
abbrev Pieces (inDirective : Bool) : (source rest : List Char) → Prop :=
  Relation.ReflTransGen (Piece inDirective)

/-- **The inside of a block**, in which the braces balance. -/
inductive Balanced : (source rest : List Char) → Prop where
  | nil (rest : List Char) : Balanced rest rest
  | piece {source mid rest : List Char} (hpiece : Piece false source mid)
      (h : Balanced mid rest) : Balanced source rest
  | nested {inner mid rest : List Char} (hinner : Balanced inner ('\x7d' :: mid))
      (h : Balanced mid rest) : Balanced ('\x7b' :: inner) rest

/-- **A rule**: a directive up to its first semicolon, or a prelude and a block. The prelude has at
least one piece, and begins with neither a blank nor a comment. -/
inductive RuleAt : (source rest : List Char) → Prop where
  | directive {source rest : List Char} (hprelude : Pieces true source (';' :: rest)) :
      RuleAt ('@' :: source) rest
  | block {c : Char} {source mid block rest : List Char} (hblank : Text.isBlank c = false)
      (hcomment : ¬ BeginsComment (c :: source)) (hfirst : Piece (c = '@') (c :: source) mid)
      (hprelude : Pieces (c = '@') mid ('\x7b' :: block))
      (hblock : Balanced block ('\x7d' :: rest)) : RuleAt (c :: source) rest

/-- **A source cut into blanks, comments and rules**, with the texts of the rules. Only at the end
of the source may a comment lack its own. -/
inductive Splits : List Char → List (List Char) → Prop where
  | nil : Splits [] []
  | blank {c : Char} {source : List Char} {texts : List (List Char)} (hc : Text.isBlank c = true)
      (h : Splits source texts) : Splits (c :: source) texts
  | comment {text source : List Char} {texts : List (List Char)} (hcomment : IsComment text)
      (h : Splits source texts) : Splits (text ++ source) texts
  | openComment {text : List Char} (hcomment : IsOpenComment text) : Splits text []
  | rule {text source : List Char} {texts : List (List Char)}
      (hrule : RuleAt (text ++ source) source) (h : Splits source texts) :
      Splits (text ++ source) (text :: texts)

/-! ## Characters by themselves -/

/-- A character by itself is where its lexeme is. -/
theorem eq_cons_of_lexemes {source : List Char} {c : Char} {ls : List Lexeme}
    (h : lexemes source = .plain c :: ls) : ∃ rest, source = c :: rest ∧ lexemes rest = ls := by
  obtain ⟨rest, hcut, hrest⟩ := cut_of_lexemes h
  exact ⟨rest, hcut.source_eq, hrest⟩

/-- Characters that begin neither strings nor comments are lexemes. -/
theorem lexemes_cons {c : Char} (hquote : isQuote c = false) (hslash : c ≠ '/')
    (rest : List Char) : lexemes (c :: rest) = .plain c :: lexemes rest :=
  precedes_plain hquote (fun h => hslash h.1)

/-! ## From the grammar to the lexemes -/

section ToLexemes

variable {inDirective : Bool} {source rest : List Char}

/-- A piece of a rule is a lexeme that fits. -/
theorem Piece.exists_cut (h : Piece inDirective source rest) :
    ∃ l, Cut source l rest ∧ l.fitsPrelude inDirective = true := by
  cases h with
  | comment h rest => exact ⟨_, .comment h rest, rfl⟩
  | string h rest => exact ⟨_, .string h rest, rfl⟩
  | @char c _ hquote hcomment hbraces hend =>
    refine ⟨.plain c, .plain hquote hcomment, ?_⟩
    cases inDirective <;> simp_all [fitsPrelude]

/-- What fits into a block is what fits into the prelude of a rule that is no directive. -/
theorem fitsBlock_eq (l : Lexeme) : l.fitsBlock = l.fitsPrelude false := by
  cases l <;> simp [fitsBlock, fitsPrelude]

/-- Pieces of a rule are lexemes that fit. -/
theorem exists_of_pieces (h : Pieces inDirective source rest) :
    ∃ ls, lexemes source = ls ++ lexemes rest ∧ ∀ l ∈ ls, l.fitsPrelude inDirective = true := by
  induction h using Relation.ReflTransGen.head_induction_on with
  | refl => exact ⟨[], rfl, List.forall_mem_nil _⟩
  | head hpiece _ ih =>
    obtain ⟨l, hcut, hl⟩ := hpiece.exists_cut
    obtain ⟨ls, hls, hfits⟩ := ih
    refine ⟨l :: ls, ?_, List.forall_mem_cons.mpr ⟨hl, hfits⟩⟩
    rw [hcut.lexemes_eq, hls]
    rfl

/-- **Where the braces balance, a block goes on as it would without them.** -/
theorem Balanced.exists_lexemes (h : Balanced source rest) :
    ∃ ls, lexemes source = ls ++ lexemes rest ∧
      ∀ {depth : Nat} {ls' : List Lexeme}, Closes depth ls' → Closes depth (ls ++ ls') := by
  induction h with
  | nil rest => exact ⟨[], rfl, id⟩
  | piece hpiece _ ih =>
    obtain ⟨l, hcut, hl⟩ := hpiece.exists_cut
    obtain ⟨ls, hls, hcloses⟩ := ih
    refine ⟨l :: ls, ?_, fun h => .other ((fitsBlock_eq l).trans hl) (hcloses h)⟩
    rw [hcut.lexemes_eq, hls]
    rfl
  | @nested inner mid rest _ _ ihinner ih =>
    obtain ⟨ls, hls, hcloses⟩ := ihinner
    obtain ⟨ls', hls', hcloses'⟩ := ih
    refine ⟨.plain '\x7b' :: (ls ++ .plain '\x7d' :: ls'), ?_, fun h => ?_⟩
    · rw [lexemes_cons rfl (by decide), hls, lexemes_cons rfl (by decide), hls']
      simp
    · rw [List.cons_append, List.append_assoc]
      exact .opens (hcloses (.close (hcloses' h)))

/-- **A lexeme that fits into a rule begins it**, if it is where neither a blank nor a comment is.
It is an at sign if the source begins with one. -/
theorem Cut.begins_of_fits {l : Lexeme} {c : Char} {cs : List Char} (h : Cut source l rest)
    (hfits : l.fitsPrelude inDirective = true) (hsource : source = c :: cs)
    (hblank : Text.isBlank c = false) (hcomment : ¬ BeginsComment source) :
    l.begins = true ∧ (l = .plain '@' ↔ c = '@') := by
  cases h with
  | comment h rest =>
    obtain ⟨body, -, rfl⟩ := h
    exact absurd (List.prefix_append _ _) hcomment
  | openComment h =>
    obtain ⟨body, -, rfl⟩ := h
    exact absurd (List.prefix_append _ _) hcomment
  | string h rest =>
    obtain ⟨quote, body, hquote, -, rfl⟩ := h
    cases hsource
    refine ⟨hquote, fun h => (nomatch h), ?_⟩
    rintro rfl
    cases hquote
  | unterminated h => cases hfits
  | plain hquote hcomment =>
    cases hsource
    simp [begins, hblank]

/-- **A rule of the grammar is a rule by its lexemes.** -/
theorem RuleAt.exists_isRule (h : RuleAt source rest) :
    ∃ ls rule, lexemes source = ls ++ lexemes rest ∧ IsRule ls rule := by
  cases h with
  | directive hprelude =>
    obtain ⟨ls, hls, hfits⟩ := exists_of_pieces hprelude
    refine ⟨.plain '@' :: ls ++ [.plain ';'], _, ?_, .directive hfits⟩
    rw [lexemes_cons rfl (by decide), hls, lexemes_cons rfl (by decide)]
    simp
  | @block c source mid block _ hblank hcomment hfirst hprelude hblock =>
    obtain ⟨first, hcut, hfirstFits⟩ := hfirst.exists_cut
    obtain ⟨hbegins, hat⟩ := hcut.begins_of_fits hfirstFits rfl hblank hcomment
    obtain ⟨ls, hls, hfits⟩ := exists_of_pieces hprelude
    obtain ⟨inner, hinner, hcloses⟩ := hblock.exists_lexemes
    refine ⟨first :: ls ++ .plain '\x7b' :: (inner ++ [.plain '\x7d']), _, ?_,
      .block hbegins ?_ (hcloses .last)⟩
    · rw [hcut.lexemes_eq, hls, lexemes_cons rfl (by decide), hinner, lexemes_cons rfl (by decide)]
      simp
    · rw [decide_eq_decide.mpr hat]
      exact List.forall_mem_cons.mpr ⟨hfirstFits, hfits⟩

/-- What stands in front of the rest of a source, in lexemes and in characters. -/
theorem source_eq_of_lexemes {ls : List Lexeme} (h : lexemes source = ls ++ lexemes rest) :
    source = texts ls ++ rest := by
  rw [← texts_lexemes source, h, texts_append, texts_lexemes]

/-- **A source that the grammar cuts is a stylesheet by its lexemes**, with the same rules. -/
theorem Splits.exists_isSheet {texts : List (List Char)} (h : Splits source texts) :
    ∃ rules : List Rule, IsSheet (lexemes source) rules ∧ rules.map (·.text.toList) = texts := by
  induction h with
  | nil => exact ⟨[], .nil, rfl⟩
  | @blank c source texts hc _ ih =>
    obtain ⟨rules, hsheet, hrules⟩ := ih
    refine ⟨rules, ?_, hrules⟩
    obtain ⟨hquote, hslash⟩ := plain_of_isBlank hc
    rw [lexemes_cons hquote hslash]
    exact .gap hc hsheet
  | comment hcomment _ ih =>
    obtain ⟨rules, hsheet, hrules⟩ := ih
    refine ⟨rules, ?_, hrules⟩
    rw [(Cut.comment hcomment _).lexemes_eq]
    exact .gap rfl hsheet
  | openComment hcomment =>
    refine ⟨[], ?_, rfl⟩
    rw [(Cut.openComment hcomment).lexemes_eq]
    exact .gap rfl .nil
  | @rule text source texts hrule _ ih =>
    obtain ⟨rules, hsheet, hrules⟩ := ih
    obtain ⟨ls, rule, hls, hisRule⟩ := hrule.exists_isRule
    refine ⟨rule :: rules, ?_, ?_⟩
    · rw [hls]
      exact .rule hisRule hsheet
    · have htext : text = Lexeme.texts ls := List.append_cancel_right (source_eq_of_lexemes hls)
      rw [List.map_cons, hrules, hisRule.exists_eq.1, htext]

end ToLexemes

/-! ## From the lexemes to the grammar -/

section ToCharacters

variable {inDirective : Bool} {source : List Char} {l : Lexeme} {ls ls' : List Lexeme}

/-- **A lexeme that fits into a rule is a piece of it**, or a comment that does not end. -/
theorem Cut.piece_or_end {rest : List Char} (h : Cut source l rest)
    (hfits : l.fitsPrelude inDirective = true) :
    Piece inDirective source rest ∨ (IsOpenComment source ∧ rest = []) := by
  cases h with
  | comment h rest => exact .inl (.comment h rest)
  | openComment h => exact .inr ⟨h, rfl⟩
  | string h rest => exact .inl (.string h rest)
  | unterminated h => cases hfits
  | @plain c _ hquote hcomment =>
    refine .inl (.char hquote hcomment ?_ ?_)
    · simp_all [fitsPrelude]
    · rintro rfl
      simp_all [fitsPrelude]

/-- A lexeme that fits into a rule and is not the last of the source is a piece of a rule. -/
theorem Cut.piece {rest : List Char} (h : Cut source l rest)
    (hfits : l.fitsPrelude inDirective = true) (hrest : rest ≠ []) :
    Piece inDirective source rest :=
  (h.piece_or_end hfits).resolve_right (fun hend => hrest hend.2)

/-- What begins a rule does not begin with a comment. -/
theorem Cut.not_beginsComment {rest : List Char} (h : Cut source l rest)
    (hbegins : l.begins = true) : ¬ BeginsComment source := by
  cases h with
  | comment h rest => cases hbegins
  | openComment h => cases hbegins
  | string h rest =>
    obtain ⟨quote, body, hquote, -, rfl⟩ := h
    intro hcomment
    cases (beginsComment_iff.mp hcomment).1
    cases hquote
  | unterminated h => cases hbegins
  | plain hquote hcomment => exact hcomment

/-- **Lexemes that fit into a rule are pieces of it**, if something comes after them. -/
theorem pieces_of_lexemes (hfits : ∀ l ∈ ls, l.fitsPrelude inDirective = true) (hls' : ls' ≠ [])
    (h : lexemes source = ls ++ ls') :
    ∃ rest, Pieces inDirective source rest ∧ lexemes rest = ls' := by
  induction ls generalizing source with
  | nil => exact ⟨source, .refl, h⟩
  | cons l ls ih =>
    obtain ⟨mid, hcut, hmid⟩ := cut_of_lexemes h
    obtain ⟨hl, hfits⟩ := List.forall_mem_cons.mp hfits
    obtain ⟨rest, hpieces, hrest⟩ := ih hfits hmid
    have hne : mid ≠ [] := by
      rintro rfl
      exact hls' (List.append_eq_nil_iff.mp hmid.symm).2
    exact ⟨rest, .head (hcut.piece hl hne) hpieces, hrest⟩

/-- **The rest of a block in which so many further blocks are open**: what is left of each of them
is balanced, up to the brace that closes it. -/
def ClosesAt : (depth : Nat) → (source rest : List Char) → Prop
  | 0, source, rest => Balanced source ('\x7d' :: rest)
  | depth + 1, source, rest =>
    ∃ mid, Balanced source ('\x7d' :: mid) ∧ ClosesAt depth mid rest

/-- What can stand in front of anything balanced can stand in front of the rest of a block. -/
theorem ClosesAt.of_balanced {depth : Nat} {source mid rest : List Char}
    (h : ∀ rest, Balanced mid rest → Balanced source rest) (hmid : ClosesAt depth mid rest) :
    ClosesAt depth source rest := by
  cases depth with
  | zero => exact h _ hmid
  | succ depth =>
    obtain ⟨next, hnext, hrest⟩ := hmid
    exact ⟨next, h _ hnext, hrest⟩

/-- **The lexemes that close a block close it by its characters.** -/
theorem closesAt_of_lexemes {depth : Nat} (hcloses : Closes depth ls)
    (h : lexemes source = ls ++ ls') :
    ∃ rest, ClosesAt depth source rest ∧ lexemes rest = ls' := by
  induction hcloses generalizing source with
  | last =>
    obtain ⟨rest, rfl, hrest⟩ := eq_cons_of_lexemes h
    exact ⟨rest, .nil _, hrest⟩
  | close _ ih =>
    obtain ⟨mid, rfl, hmid⟩ := eq_cons_of_lexemes h
    obtain ⟨rest, hclosesAt, hrest⟩ := ih hmid
    exact ⟨rest, ⟨mid, .nil _, hclosesAt⟩, hrest⟩
  | opens _ ih =>
    obtain ⟨inner, rfl, hinner⟩ := eq_cons_of_lexemes h
    obtain ⟨rest, ⟨mid, hbalanced, hclosesAt⟩, hrest⟩ := ih hinner
    exact ⟨rest, hclosesAt.of_balanced (fun _ hmid => .nested hbalanced hmid), hrest⟩
  | @other depth l ls hl hcloses ih =>
    obtain ⟨mid, hcut, hmid⟩ := cut_of_lexemes h
    obtain ⟨rest, hclosesAt, hrest⟩ := ih hmid
    have hne : mid ≠ [] := by
      rintro rfl
      obtain ⟨inner, rfl⟩ := hcloses.exists_eq
      simp [lexemes, lexemesFrom] at hmid
    have hpiece : Piece false source mid := hcut.piece ((fitsBlock_eq l).symm.trans hl) hne
    exact ⟨rest, hclosesAt.of_balanced (fun _ h => .piece hpiece h), hrest⟩

/-- **A rule by its lexemes is a rule of the grammar.** -/
theorem ruleAt_of_lexemes {rule : Rule} (hrule : IsRule ls rule)
    (h : lexemes source = ls ++ ls') :
    ∃ rest, RuleAt source rest ∧ lexemes rest = ls' := by
  cases hrule with
  | @directive prelude hprelude =>
    rw [List.append_assoc, List.cons_append] at h
    obtain ⟨inner, rfl, hinner⟩ := eq_cons_of_lexemes h
    obtain ⟨mid, hpieces, hmid⟩ := pieces_of_lexemes hprelude (List.cons_ne_nil _ _) hinner
    obtain ⟨rest, rfl, hrest⟩ := eq_cons_of_lexemes hmid
    exact ⟨rest, .directive hpieces, hrest⟩
  | @block first prelude block hfirst hprelude hblock =>
    rw [List.append_assoc, List.cons_append] at h
    obtain ⟨mid, hcut, hmid⟩ := cut_of_lexemes h
    obtain ⟨hfirstFits, hfits⟩ := List.forall_mem_cons.mp hprelude
    obtain ⟨mid', hpieces, hmid'⟩ := pieces_of_lexemes hfits (List.cons_ne_nil _ _) hmid
    obtain ⟨inner, rfl, hinner⟩ := eq_cons_of_lexemes hmid'
    obtain ⟨rest, hbalanced, hrest⟩ := closesAt_of_lexemes hblock hinner
    have hne : mid ≠ [] := by
      rintro rfl
      simp [lexemes, lexemesFrom] at hmid
    have hpiece := hcut.piece hfirstFits hne
    obtain ⟨c, cs, htext, hblank, hat⟩ := exists_of_begins hfirst
    have hsource : source = c :: (cs ++ mid) := by
      rw [hcut.source_eq, htext]
      rfl
    have hcomment := hcut.not_beginsComment hfirst
    subst hsource
    rw [decide_eq_decide.mpr hat.symm] at hpiece hpieces
    exact ⟨rest, .block hblank hcomment hpiece hpieces hbalanced, hrest⟩

/-- **A stylesheet by its lexemes is cut by the grammar**, and the rules have the same texts. -/
theorem splits_of_isSheet {rules : List Rule} (hsheet : IsSheet ls rules)
    (h : lexemes source = ls) : Splits source (rules.map (·.text.toList)) := by
  induction hsheet generalizing source with
  | nil =>
    have hnil : source = [] := by rw [← texts_lexemes source, h, texts_nil]
    subst hnil
    exact .nil
  | @gap l ls rules hl hsheet ih =>
    obtain ⟨rest, hcut, hrest⟩ := cut_of_lexemes h
    have hsplits := ih hrest
    cases hcut with
    | comment hcomment rest => exact .comment hcomment hsplits
    | openComment hcomment =>
      -- Behind a comment without an end there is nothing, and so no rule.
      cases hrest
      rw [hsheet.eq_nil]
      exact .openComment hcomment
    | string h rest => cases hl
    | unterminated h => cases hl
    | plain hquote hcomment => exact .blank hl hsplits
  | @rule ls ls' rule rules hrule hsheet ih =>
    obtain ⟨rest, hruleAt, hrest⟩ := ruleAt_of_lexemes hrule h
    have hsource : source = rule.text.toList ++ rest := by
      rw [hrule.exists_eq.1]
      exact source_eq_of_lexemes (h.trans (congrArg _ hrest.symm))
    rw [hsource] at hruleAt ⊢
    exact .rule hruleAt (ih hrest)

end ToCharacters

/-! ## Reading by the grammar -/

/-- **What is read of a source is what the grammar cuts it into.** -/
theorem splits_of_parse {source : String} {sheet : Stylesheet} (h : parse source = .ok sheet) :
    Splits source.toList (sheet.rules.map (·.text.toList)) :=
  splits_of_isSheet (parse_eq_ok_iff.mp h) rfl

/-- **A source that the grammar cuts is read**, as rules with the same texts. -/
theorem exists_of_splits {source : String} {texts : List (List Char)}
    (h : Splits source.toList texts) :
    ∃ sheet, parse source = .ok sheet ∧ sheet.rules.map (·.text.toList) = texts := by
  obtain ⟨rules, hsheet, hrules⟩ := h.exists_isSheet
  exact ⟨⟨rules⟩, parse_eq_ok_iff.mpr hsheet, hrules⟩

/-- **A source is read if and only if the grammar cuts it into blanks, comments and rules.** Then it
cuts it in one way only, since the texts of its rules are those of the rules that are read. -/
theorem parse_ok_iff_splits (source : String) :
    ((∃ sheet, parse source = .ok sheet) ↔ ∃ texts, Splits source.toList texts) ∧
      ∀ sheet texts, parse source = .ok sheet → Splits source.toList texts →
        sheet.rules.map (·.text.toList) = texts := by
  refine ⟨⟨?_, ?_⟩, fun sheet texts hsheet hsplits => ?_⟩
  · rintro ⟨sheet, hsheet⟩
    exact ⟨_, splits_of_parse hsheet⟩
  · rintro ⟨texts, hsplits⟩
    obtain ⟨sheet, hsheet, -⟩ := exists_of_splits hsplits
    exact ⟨sheet, hsheet⟩
  · obtain ⟨sheet', hsheet', htexts⟩ := exists_of_splits hsplits
    cases hsheet.symm.trans hsheet'
    exact htexts

/-- Braces and semicolons inside strings and comments do not count, a backslash takes away the
meaning of a quote, and the comment at the end may be left open. In the second source it is the
string that is left open, and with it the block. -/
theorem parse_ok_iff_splits_quotes :
    (∃ texts, Splits "@import 'a;b' ;.q\x7bcontent:\"\\\"\x7d\"/*\x7d*/\x7d /* end".toList texts) ∧
      ¬ ∃ texts, Splits ".q\x7bcontent:\"\\\"\x7d /* end */".toList texts := by
  have hread : parse "@import 'a;b' ;.q\x7bcontent:\"\\\"\x7d\"/*\x7d*/\x7d /* end"
      = .ok ⟨[⟨"@import 'a;b'", "@import 'a;b' ;"⟩,
          ⟨".q", ".q\x7bcontent:\"\\\"\x7d\"/*\x7d*/\x7d"⟩]⟩ := by decide
  have hrefused : parse ".q\x7bcontent:\"\\\"\x7d /* end */"
      = .error ⟨.unterminatedString, 1, 12⟩ := by decide
  refine ⟨(parse_ok_iff_splits _).1.mp ⟨_, hread⟩, fun hsplits => ?_⟩
  obtain ⟨sheet, hsheet⟩ := (parse_ok_iff_splits _).1.mpr hsplits
  cases hrefused.symm.trans hsheet

end Source

end Pagewright.Stylesheet
