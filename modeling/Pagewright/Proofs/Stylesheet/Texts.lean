import Pagewright.Proofs.Stylesheet.Grammar

/-!
# Texts of rules

A rule is kept word for word, so that it can be written again elsewhere. For this the text of a rule
has to be read as the rule wherever it stands. It does, as it ends in a brace or a semicolon, behind
which nothing can change the meaning of what comes before (`reads_of_parse`).

`Reads` is the property of a text to be read as a list of rules whatever comes after it. Such texts
can be put one after the other, with blanks between them. Rules that are written declaration by
declaration have it too, if there is nothing in them that begins a string or a comment
(`reads_ofDeclarations`).
-/

namespace Pagewright.Stylesheet

open Lexeme

/-- **The text is read as these rules, whatever comes after it.** -/
def Reads (text : List Char) (rules : List Rule) : Prop :=
  ∃ ls, IsSheet ls rules ∧ ∀ rest, lexemes (text ++ rest) = ls ++ lexemes rest

theorem IsSheet.append {ls ls' : List Lexeme} {rules rules' : List Rule} (h : IsSheet ls rules)
    (h' : IsSheet ls' rules') : IsSheet (ls ++ ls') (rules ++ rules') := by
  induction h with
  | nil => exact h'
  | gap hl _ ih => exact .gap hl ih
  | rule hrule _ ih =>
    rw [List.append_assoc]
    exact .rule hrule ih

/-- A blank begins neither a string nor a comment. -/
theorem plain_of_isBlank {c : Char} (h : Text.isBlank c = true) : isQuote c = false ∧ c ≠ '/' := by
  refine ⟨?_, ?_⟩
  · cases hquote : isQuote c with
    | false => rfl
    | true =>
      have hor : c = '"' ∨ c = '\'' := by
        simpa [isQuote] using hquote
      rcases hor with rfl | rfl <;> cases h
  · rintro rfl
    cases h

namespace Reads

variable {text text' : List Char} {rules rules' : List Rule}

theorem nil : Reads [] [] :=
  ⟨[], .nil, fun _ => rfl⟩

theorem append (h : Reads text rules) (h' : Reads text' rules') :
    Reads (text ++ text') (rules ++ rules') := by
  obtain ⟨ls, hsheet, hlexemes⟩ := h
  obtain ⟨ls', hsheet', hlexemes'⟩ := h'
  refine ⟨ls ++ ls', hsheet.append hsheet', fun rest => ?_⟩
  rw [List.append_assoc, hlexemes, hlexemes', List.append_assoc]

/-- A blank is read as no rule. -/
theorem blank {c : Char} (h : Text.isBlank c = true) : Reads [c] [] :=
  ⟨[.plain c], .gap h .nil,
    lexemes_append_of_plain (List.forall_mem_singleton.mpr (plain_of_isBlank h))⟩

/-- A text that is read as rules, by itself. -/
theorem parse {source : String} (h : Reads source.toList rules) : parse source = .ok ⟨rules⟩ := by
  obtain ⟨ls, hsheet, hlexemes⟩ := h
  have hsource := hlexemes []
  rw [List.append_nil, show lexemes [] = [] from rfl, List.append_nil] at hsource
  rw [parse_eq_ok_iff, hsource]
  exact hsheet

end Reads

/-! ## Rules that have been read -/

/-- A block ends in a brace. -/
theorem Closes.exists_eq {depth : Nat} {ls : List Lexeme} (h : Closes depth ls) :
    ∃ inner, ls = inner ++ [.plain '\x7d'] := by
  induction h with
  | last => exact ⟨[], rfl⟩
  | close _ ih =>
    obtain ⟨inner, rfl⟩ := ih
    exact ⟨_ :: inner, rfl⟩
  | opens _ ih =>
    obtain ⟨inner, rfl⟩ := ih
    exact ⟨_ :: inner, rfl⟩
  | other _ _ ih =>
    obtain ⟨inner, rfl⟩ := ih
    exact ⟨_ :: inner, rfl⟩

/-- A rule ends in a semicolon or in a brace, and its text is that of its lexemes. -/
theorem IsRule.exists_eq {ls : List Lexeme} {rule : Rule} (h : IsRule ls rule) :
    rule.text.toList = texts ls ∧
      ∃ inner c, ls = inner ++ [.plain c] ∧ (c = ';' ∨ c = '\x7d') := by
  cases h with
  | @directive prelude _ =>
    refine ⟨?_, .plain '@' :: prelude, ';', rfl, .inl rfl⟩
    exact String.toList_ofList.trans (List.reverse_reverse _)
  | @block first prelude block _ _ hblock =>
    obtain ⟨inner, rfl⟩ := hblock.exists_eq
    refine ⟨String.toList_ofList, first :: prelude ++ .plain '\x7b' :: inner, '\x7d', ?_, .inr rfl⟩
    rw [List.append_assoc]
    rfl

/-- Every rule of a stylesheet has its place among the lexemes. -/
theorem IsSheet.exists_of_mem {ls : List Lexeme} {rules : List Rule} (h : IsSheet ls rules)
    {rule : Rule} (hrule : rule ∈ rules) :
    ∃ before inner after, ls = before ++ (inner ++ after) ∧ IsRule inner rule := by
  induction h with
  | nil => cases hrule
  | @gap l ls rules _ _ ih =>
    obtain ⟨before, inner, after, rfl, hinner⟩ := ih hrule
    exact ⟨l :: before, inner, after, rfl, hinner⟩
  | @rule ls ls' first rules hfirst _ ih =>
    rcases List.mem_cons.mp hrule with rfl | hrule
    · exact ⟨[], ls, ls', rfl, hfirst⟩
    · obtain ⟨before, inner, after, rfl, hinner⟩ := ih hrule
      exact ⟨ls ++ before, inner, after, (List.append_assoc _ _ _).symm, hinner⟩

/-- **A rule of a stylesheet is read as the same rule wherever its text stands.** Its text is a part
of the source, and it ends in a semicolon or in a brace. -/
theorem reads_of_parse {source : String} {sheet : Stylesheet} (h : parse source = .ok sheet)
    {rule : Rule} (hrule : rule ∈ sheet.rules) :
    Reads rule.text.toList [rule] ∧ rule.text.toList <:+: source.toList ∧
      (rule.text.toList.getLast? = some ';' ∨ rule.text.toList.getLast? = some '\x7d') := by
  obtain ⟨before, ls, after, hlexemes, hls⟩ := (parse_eq_ok_iff.mp h).exists_of_mem hrule
  obtain ⟨htext, inner, c, rfl, hc⟩ := hls.exists_eq
  obtain ⟨rest, hsource, hrest⟩ := exists_of_lexemes_append hlexemes
  rw [htext]
  refine ⟨⟨inner ++ [.plain c], ?_, fun rest' => ?_⟩, ?_, ?_⟩
  · have hsheet := IsSheet.rule hls .nil
    rw [List.append_nil] at hsheet
    exact hsheet
  · have hslash : c ≠ '/' := by
      rcases hc with rfl | rfl <;> decide
    rw [List.append_assoc] at hrest ⊢
    exact lexemes_append_of_ends hslash hrest rest'
  · refine ⟨texts before, texts after, ?_⟩
    rw [hsource, ← texts_lexemes rest, hrest, texts_append _ after, List.append_assoc]
  · rw [texts_append]
    rcases hc with rfl | rfl <;> simp [Lexeme.text]

/-! ## Rules that are written -/

/-- The character has no meaning for where a rule ends. -/
def isInert (c : Char) : Bool :=
  !isQuote c && c ≠ '/' && c ≠ '\x7b' && c ≠ '\x7d'

theorem isInert_iff {c : Char} :
    isInert c = true ↔ (isQuote c = false ∧ c ≠ '/') ∧ c ≠ '\x7b' ∧ c ≠ '\x7d' := by
  simp [isInert, and_assoc]

/-- The text can be written as the selector of a rule. -/
def isSelector (selector : List Char) : Bool :=
  selector.all isInert && selector.head?.any (fun c => !Text.isBlank c && c ≠ '@') &&
    Text.trim (selector ++ [' ']) = selector

namespace Rule

/-- The text of declarations, each indented and on a line of its own. -/
def declarationLines (declarations : List String) : List Char :=
  declarations.flatMap fun declaration => "    ".toList ++ declaration.toList ++ ";\n".toList

/-- **The rule with a selector and declarations**, as it is laid out in a file. -/
def ofDeclarations (selector : String) (declarations : List String) : Rule where
  selector := selector
  text := String.ofList
    (selector.toList ++ " \x7b\n".toList ++ declarationLines declarations ++ ['\x7d'])

end Rule

/-- Inert characters in front of a brace close a block. -/
theorem closes_of_inert {cs : List Char} (h : ∀ c ∈ cs, isInert c = true) :
    Closes 0 ((cs ++ ['\x7d']).map .plain) := by
  induction cs with
  | nil => exact .last
  | cons c cs ih =>
    have hc : (Lexeme.plain c).fitsBlock = true := by
      have hbraces := (isInert_iff.mp (h c List.mem_cons_self)).2
      simp [fitsBlock, hbraces]
    exact .other hc (ih (fun d hd => h d (List.mem_cons_of_mem _ hd)))

/-- Characters by themselves are their own text. -/
theorem texts_map_plain (cs : List Char) : texts (cs.map .plain) = cs := by
  induction cs with
  | nil => rfl
  | cons c cs ih => rw [List.map_cons, texts_cons, ih]; rfl

/-- Declarations of inert characters are laid out in inert characters. -/
theorem isInert_of_mem_declarationLines {declarations : List String}
    (h : ∀ d ∈ declarations, d.toList.all isInert = true) :
    ∀ c ∈ Rule.declarationLines declarations, isInert c = true := by
  intro c hc
  obtain ⟨d, hd, hc⟩ := List.mem_flatMap.mp hc
  have hfixed : "    ".toList.all isInert = true ∧ ";\n".toList.all isInert = true := by decide
  rcases List.mem_append.mp hc with hc | hc
  · rcases List.mem_append.mp hc with hc | hc
    · exact List.all_eq_true.mp hfixed.1 c hc
    · exact List.all_eq_true.mp (h d hd) c hc
  · exact List.all_eq_true.mp hfixed.2 c hc

/-- **A rule of inert characters** and two braces has these characters for its lexemes. -/
theorem isRule_of_inert {first : Char} {prelude block : List Char}
    (hblank : Text.isBlank first = false) (hat : first ≠ '@')
    (hprelude : ∀ c ∈ first :: prelude, isInert c = true)
    (hblock : ∀ c ∈ block, isInert c = true) :
    IsRule ((first :: prelude ++ '\x7b' :: (block ++ ['\x7d'])).map .plain)
      ⟨String.ofList (Text.trim (first :: prelude)),
        String.ofList (first :: prelude ++ '\x7b' :: (block ++ ['\x7d']))⟩ := by
  have hfirst : (Lexeme.plain first).begins = true := by simp [begins, hblank]
  have hfits : ∀ l ∈ (first :: prelude).map Lexeme.plain,
      l.fitsPrelude (Lexeme.plain first = .plain '@') = true := by
    intro l hl
    obtain ⟨c, hc, rfl⟩ := List.mem_map.mp hl
    simp [fitsPrelude, (isInert_iff.mp (hprelude c hc)).2, hat]
  have hrule := IsRule.block hfirst hfits (closes_of_inert hblock)
  have htexts : Lexeme.plain first :: prelude.map .plain ++
        .plain '\x7b' :: (block ++ ['\x7d']).map .plain
      = (first :: prelude ++ '\x7b' :: (block ++ ['\x7d'])).map .plain := by
    simp
  rw [htexts, texts_map_plain, ← List.map_cons (f := Lexeme.plain), texts_map_plain] at hrule
  exact hrule

/-- The text of a rule that is written, cut where its block begins. -/
theorem toList_ofDeclarations (selector : String) (declarations : List String) :
    (Rule.ofDeclarations selector declarations).text.toList
      = selector.toList ++ [' '] ++
        '\x7b' :: ('\n' :: Rule.declarationLines declarations ++ ['\x7d']) := by
  show (String.ofList _).toList = _
  rw [String.toList_ofList]
  simp

/-- **A rule that is written is read as that rule**, whatever comes after it. -/
theorem reads_ofDeclarations {selector : String} {declarations : List String}
    (hselector : isSelector selector.toList = true)
    (hdeclarations : ∀ d ∈ declarations, d.toList.all isInert = true) :
    Reads (Rule.ofDeclarations selector declarations).text.toList
      [Rule.ofDeclarations selector declarations] := by
  unfold isSelector at hselector
  simp only [Bool.and_eq_true, List.all_eq_true, decide_eq_true_eq] at hselector
  obtain ⟨⟨hinert, hhead⟩, htrim⟩ := hselector
  have hprelude : ∀ c ∈ selector.toList ++ [' '], isInert c = true :=
    List.forall_mem_append.mpr ⟨hinert, List.forall_mem_singleton.mpr (by decide)⟩
  have hblock : ∀ c ∈ '\n' :: Rule.declarationLines declarations, isInert c = true :=
    List.forall_mem_cons.mpr ⟨by decide, isInert_of_mem_declarationLines hdeclarations⟩
  have hrule : IsRule ((Rule.ofDeclarations selector declarations).text.toList.map .plain)
      (Rule.ofDeclarations selector declarations) := by
    cases hcs : selector.toList with
    | nil =>
      rw [hcs] at hhead
      cases hhead
    | cons first more =>
      rw [hcs] at hhead hprelude htrim
      simp only [List.head?_cons, Option.any_some, Bool.and_eq_true, Bool.not_eq_true',
        decide_eq_true_eq] at hhead
      have htext : (Rule.ofDeclarations selector declarations).text.toList
          = (first :: more ++ [' ']) ++
            '\x7b' :: ('\n' :: Rule.declarationLines declarations ++ ['\x7d']) := by
        rw [toList_ofDeclarations, hcs]
      have hsame : Rule.ofDeclarations selector declarations
          = ⟨String.ofList (Text.trim (first :: more ++ [' '])),
            String.ofList (Rule.ofDeclarations selector declarations).text.toList⟩ := by
        rw [htrim, ← hcs, String.ofList_toList, String.ofList_toList]
        rfl
      rw [hsame, htext, String.toList_ofList]
      exact isRule_of_inert hhead.1 hhead.2 hprelude hblock
  have hsheet := IsSheet.rule hrule .nil
  rw [List.append_nil] at hsheet
  refine ⟨_, hsheet, lexemes_append_of_plain ?_⟩
  rw [toList_ofDeclarations]
  refine List.forall_mem_append.mpr ⟨fun c hc => (isInert_iff.mp (hprelude c hc)).1, ?_⟩
  refine List.forall_mem_cons.mpr ⟨by decide, List.forall_mem_append.mpr ⟨?_, ?_⟩⟩
  · exact fun c hc => (isInert_iff.mp (hblock c hc)).1
  · exact List.forall_mem_singleton.mpr (by decide)

end Pagewright.Stylesheet
