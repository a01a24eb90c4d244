import Mathlib.Data.List.TakeWhile
import Pagewright.Proofs.Stylesheet.Lexemes
import Pagewright.Stylesheet.Parse

/-!
# The grammar of a stylesheet

Reading a stylesheet is one pass over the lexemes, with a state that says how far the present rule
has been read. This module says what is read without such a state. A stylesheet is a list of rules
with gaps between them (`IsSheet`). A rule is a prelude and a semicolon, or a prelude and a block in
which the braces balance (`IsRule`, `Closes`). The pass accepts exactly that and finds these rules
(`parse_eq_ok_iff`).

The braces of a block are counted from the inside: a block in which so many others are open is
closed when each of these is, and then the block itself.
-/

namespace Pagewright.Stylesheet

namespace Lexeme

/-- The lexeme can stand between rules. -/
def isGap : Lexeme → Bool
  | plain c => Text.isBlank c
  | comment _ => true
  | quoted _ | unterminated _ => false

/-- The lexeme can begin a rule. -/
def begins : Lexeme → Bool
  | plain c => !Text.isBlank c
  | quoted text => text.head?.any isQuote
  | comment _ | unterminated _ => false

/-- The lexeme can stand in a prelude. A semicolon cannot if the prelude is that of a directive. -/
def fitsPrelude (inDirective : Bool) : Lexeme → Bool
  | plain c => c ≠ '\x7b' && c ≠ '\x7d' && !(inDirective && c = ';')
  | comment _ | quoted _ => true
  | unterminated _ => false

/-- The lexeme can stand in a block and is not a brace. -/
def fitsBlock : Lexeme → Bool
  | plain c => c ≠ '\x7b' && c ≠ '\x7d'
  | comment _ | quoted _ => true
  | unterminated _ => false

variable {l : Lexeme}

/-- What can begin a rule is not a gap. -/
theorem isGap_of_begins (h : l.begins = true) : l.isGap = false := by
  cases l with
  | plain c => simpa [begins, isGap] using h
  | quoted text => rfl
  | comment text => cases h
  | unterminated text => cases h

/-- What can begin a rule has a first character, which is not blank. -/
theorem exists_of_begins (h : l.begins = true) :
    ∃ c cs, l.text = c :: cs ∧ Text.isBlank c = false ∧ (c = '@' ↔ l = .plain '@') := by
  cases l with
  | plain c => exact ⟨c, [], rfl, by simpa [begins] using h, by simp⟩
  | quoted text =>
    cases text with
    | nil => cases h
    | cons c cs =>
      have hor : c = '"' ∨ c = '\'' := by
        simpa [begins, isQuote] using h
      refine ⟨c, cs, rfl, ?_, ?_⟩
      · rcases hor with rfl | rfl <;> decide
      · rcases hor with rfl | rfl <;> simp
  | comment text => cases h
  | unterminated text => cases h

/-- A prelude that is not of a directive may hold more. -/
theorem fitsPrelude_false {inDirective : Bool} (h : l.fitsPrelude inDirective = true) :
    l.fitsPrelude false = true := by
  cases l with
  | plain c => simp_all [fitsPrelude]
  | comment text => rfl
  | quoted text => rfl
  | unterminated text => cases h

end Lexeme

open Lexeme

/-! ## Rules and sheets -/

/-- **The rest of a block** in which so many further blocks are open, with the brace that closes
it. -/
inductive Closes : Nat → List Lexeme → Prop where
  | last : Closes 0 [.plain '\x7d']
  | close {depth : Nat} {ls : List Lexeme} (h : Closes depth ls) :
      Closes (depth + 1) (.plain '\x7d' :: ls)
  | opens {depth : Nat} {ls : List Lexeme} (h : Closes (depth + 1) ls) :
      Closes depth (.plain '\x7b' :: ls)
  | other {depth : Nat} {l : Lexeme} {ls : List Lexeme} (hl : l.fitsBlock = true)
      (h : Closes depth ls) : Closes depth (l :: ls)

/-- **The lexemes of a rule**: a directive up to its semicolon, or a prelude and a block. -/
inductive IsRule : List Lexeme → Rule → Prop where
  | directive {prelude : List Lexeme} (hprelude : ∀ l ∈ prelude, l.fitsPrelude true = true) :
      IsRule (.plain '@' :: prelude ++ [.plain ';'])
        (directive (texts (.plain '@' :: prelude ++ [.plain ';'])).reverse)
  | block {first : Lexeme} {prelude block : List Lexeme} (hfirst : first.begins = true)
      (hprelude : ∀ l ∈ first :: prelude, l.fitsPrelude (first = .plain '@') = true)
      (hblock : Closes 0 block) :
      IsRule (first :: prelude ++ .plain '\x7b' :: block)
        ⟨String.ofList (Text.trim (texts (first :: prelude))),
          String.ofList (texts (first :: prelude ++ .plain '\x7b' :: block))⟩

/-- **The lexemes of a stylesheet**: rules with gaps between them. -/
inductive IsSheet : List Lexeme → List Rule → Prop where
  | nil : IsSheet [] []
  | gap {l : Lexeme} {ls : List Lexeme} {rules : List Rule} (hl : l.isGap = true)
      (h : IsSheet ls rules) : IsSheet (l :: ls) rules
  | rule {ls ls' : List Lexeme} {rule : Rule} {rules : List Rule} (hrule : IsRule ls rule)
      (h : IsSheet ls' rules) : IsSheet (ls ++ ls') (rule :: rules)

/-! ## One lexeme -/

section Steps

variable {offset start brace depth : Nat} {text : List Char} {selector : String} {l : Lexeme}
  {next : Progress} {ended : List Rule}

/-- The prelude read so far is that of a directive. -/
def isDirective (text : List Char) : Bool :=
  text.getLast? = some '@'

/-- **What a lexeme does to a prelude**: it goes on, or the directive ends, or the block begins. -/
theorem step_prelude_eq_ok_iff :
    Progress.step offset (.prelude start text) l = .ok (next, ended) ↔
      (l.fitsPrelude (isDirective text) = true ∧
        next = .prelude start (l.text.reverse ++ text) ∧ ended = []) ∨
      (l = .plain ';' ∧ isDirective text = true ∧ next = .between ∧
        ended = [directive (';' :: text)]) ∨
      (l = .plain '\x7b' ∧ Text.trim text.reverse ≠ [] ∧
        next = .block offset (String.ofList (Text.trim text.reverse)) 0 ('\x7b' :: text) ∧
        ended = []) := by
  show inPrelude offset start text l = _ ↔ _
  unfold inPrelude isDirective
  split
  · grind [fitsPrelude]
  · grind [fitsPrelude]
  · grind [fitsPrelude, Lexeme.text]
  · grind [fitsPrelude]
  · next hopen hclose hsemicolon hunterminated =>
    have hfits : l.fitsPrelude (text.getLast? = some '@') = true := by
      cases l with
      | plain c => grind [fitsPrelude]
      | comment text => rfl
      | quoted text => rfl
      | unterminated text => exact absurd rfl (hunterminated text)
    grind

/-- **What a lexeme does to a block**: it goes on, a block opens or closes inside it, or it ends. -/
theorem step_block_eq_ok_iff :
    Progress.step offset (.block brace selector depth text) l = .ok (next, ended) ↔
      (l.fitsBlock = true ∧ next = .block brace selector depth (l.text.reverse ++ text) ∧
        ended = []) ∨
      (l = .plain '\x7b' ∧ next = .block brace selector (depth + 1) ('\x7b' :: text) ∧
        ended = []) ∨
      (l = .plain '\x7d' ∧ ∃ inner, depth = inner + 1 ∧
        next = .block brace selector inner ('\x7d' :: text) ∧ ended = []) ∨
      (l = .plain '\x7d' ∧ depth = 0 ∧ next = .between ∧
        ended = [⟨selector, String.ofList ('\x7d' :: text).reverse⟩]) := by
  show inBlock offset brace selector depth text l = _ ↔ _
  unfold inBlock
  split
  · grind [fitsBlock]
  · cases depth with
    | zero => grind [fitsBlock]
    | succ inner => grind [fitsBlock]
  · grind [fitsBlock]
  · next hopen hclose hunterminated =>
    have hfits : l.fitsBlock = true := by
      cases l with
      | plain c => grind [fitsBlock]
      | comment text => rfl
      | quoted text => rfl
      | unterminated text => exact absurd rfl (hunterminated text)
    grind

/-- What a lexeme does between rules. -/
theorem step_between (offset : Nat) (l : Lexeme) :
    Progress.step offset .between l
      = if l.isGap then .ok (.between, []) else Progress.step offset (.prelude offset []) l := by
  cases l <;> rfl

end Steps

/-! ## From the grammar to the pass -/

section Runs

variable {offset start brace depth : Nat} {text : List Char} {selector : String}
  {state next : Progress} {found ended rules : List Rule} {l : Lexeme} {ls : List Lexeme}

/-- The pass goes on after a lexeme. -/
theorem rulesFrom_cons (h : state.step offset l = .ok (next, ended)) (rest : List Lexeme) :
    rulesFrom offset state found (l :: rest)
      = rulesFrom (offset + l.text.length) next (ended ++ found) rest := by
  rw [rulesFrom, h]

/-- If the pass comes to its end, it has gone on after every lexeme. -/
theorem exists_of_rulesFrom_cons (h : rulesFrom offset state found (l :: ls) = .ok rules) :
    ∃ next ended, state.step offset l = .ok (next, ended) ∧
      rulesFrom (offset + l.text.length) next (ended ++ found) ls = .ok rules := by
  rw [rulesFrom] at h
  split at h
  · next next ended hstep => exact ⟨next, ended, hstep, h⟩
  · cases h

/-- More text does not change what a prelude is the prelude of. -/
theorem isDirective_append (htext : text ≠ []) (more : List Char) :
    isDirective (more ++ text) = isDirective text := by
  unfold isDirective
  rw [List.getLast?_append, Option.or_of_isSome (List.getLast?_isSome.mpr htext)]

theorem rulesFrom_prelude (htext : text ≠ [])
    (h : ∀ l ∈ ls, l.fitsPrelude (isDirective text) = true) (rest : List Lexeme) :
    rulesFrom offset (.prelude start text) found (ls ++ rest)
      = rulesFrom (offset + (texts ls).length) (.prelude start ((texts ls).reverse ++ text)) found
          rest := by
  induction ls generalizing offset text with
  | nil => rfl
  | cons l ls ih =>
    have hstep : Progress.step offset (.prelude start text) l
        = .ok (.prelude start (l.text.reverse ++ text), []) :=
      step_prelude_eq_ok_iff.mpr (.inl ⟨h l List.mem_cons_self, rfl, rfl⟩)
    have hne : l.text.reverse ++ text ≠ [] := List.append_ne_nil_of_right_ne_nil _ htext
    rw [List.cons_append, rulesFrom_cons hstep, List.nil_append, ih hne, texts_cons,
      List.length_append, List.reverse_append, List.append_assoc, Nat.add_assoc]
    intro l' hl'
    rw [isDirective_append htext]
    exact h l' (List.mem_cons_of_mem _ hl')

/-- **The rest of a block ends the rule**, and nothing else does. -/
theorem rulesFrom_closes (h : Closes depth ls) (rest : List Lexeme) :
    rulesFrom offset (.block brace selector depth text) found (ls ++ rest)
      = rulesFrom (offset + (texts ls).length) .between
          (⟨selector, String.ofList (text.reverse ++ texts ls)⟩ :: found) rest := by
  induction h generalizing offset text with
  | last =>
    have hstep : Progress.step offset (.block brace selector 0 text) (.plain '\x7d')
        = .ok (.between, [⟨selector, String.ofList ('\x7d' :: text).reverse⟩]) := rfl
    rw [List.singleton_append, rulesFrom_cons hstep, List.reverse_cons]
    rfl
  | @close depth ls _ ih =>
    have hstep : Progress.step offset (.block brace selector (depth + 1) text) (.plain '\x7d')
        = .ok (.block brace selector depth ('\x7d' :: text), []) := rfl
    rw [List.cons_append, rulesFrom_cons hstep, List.nil_append, ih]
    simp [Lexeme.text, Nat.add_assoc, Nat.add_comm]
  | @opens depth ls _ ih =>
    have hstep : Progress.step offset (.block brace selector depth text) (.plain '\x7b')
        = .ok (.block brace selector (depth + 1) ('\x7b' :: text), []) := rfl
    rw [List.cons_append, rulesFrom_cons hstep, List.nil_append, ih]
    simp [Lexeme.text, Nat.add_assoc, Nat.add_comm]
  | @other depth l ls hl _ ih =>
    have hstep : Progress.step offset (.block brace selector depth text) l
        = .ok (.block brace selector depth (l.text.reverse ++ text), []) :=
      step_block_eq_ok_iff.mpr (.inl ⟨hl, rfl, rfl⟩)
    rw [List.cons_append, rulesFrom_cons hstep, List.nil_append, ih]
    simp [Nat.add_assoc]

/-- There is nothing to take off a text whose first character is not blank. -/
theorem trimLeft_cons {c : Char} (hc : Text.isBlank c = false) (cs : List Char) :
    Text.trimLeft (c :: cs) = c :: cs := by
  unfold Text.trimLeft
  rw [List.dropWhile_cons_of_neg (by rw [hc]; exact Bool.false_ne_true)]

/-- A text with a first character that is not blank is more than blanks. -/
theorem trim_ne_nil {c : Char} (hc : Text.isBlank c = false) (cs : List Char) :
    Text.trim (c :: cs) ≠ [] := by
  unfold Text.trim Text.trimRight
  rw [trimLeft_cons hc]
  intro hnil
  have hall := List.dropWhile_eq_nil_iff.mp (List.reverse_eq_nil_iff.mp hnil)
  have hblank := hall c (List.mem_reverse.mpr List.mem_cons_self)
  rw [hc] at hblank
  cases hblank

/-- The first lexeme of a rule begins its prelude. -/
theorem rulesFrom_begins (hbegins : l.begins = true) {inDirective : Bool}
    (hfits : l.fitsPrelude inDirective = true) (rest : List Lexeme) :
    rulesFrom offset .between found (l :: rest)
      = rulesFrom (offset + l.text.length) (.prelude offset l.text.reverse) found rest := by
  have hstep : Progress.step offset .between l = .ok (.prelude offset l.text.reverse, []) := by
    rw [step_between, isGap_of_begins hbegins, if_neg Bool.false_ne_true]
    refine step_prelude_eq_ok_iff.mpr (.inl ⟨fitsPrelude_false hfits, ?_, rfl⟩)
    rw [List.append_nil]
  rw [rulesFrom_cons hstep, List.nil_append]

/-- Whether a rule is a directive is decided by its first lexeme. -/
theorem isDirective_of_begins (hbegins : l.begins = true) :
    isDirective l.text.reverse = decide (l = .plain '@') := by
  obtain ⟨c, cs, htext, -, hat⟩ := exists_of_begins hbegins
  unfold isDirective
  rw [List.getLast?_reverse, htext, List.head?_cons]
  exact decide_eq_decide.mpr (Option.some_inj.trans hat)

/-- **The pass reads a whole prelude**, from between rules up to what ends it. -/
theorem rulesFrom_begins_prelude (hbegins : l.begins = true)
    (h : ∀ l' ∈ l :: ls, l'.fitsPrelude (l = .plain '@') = true) (rest : List Lexeme) :
    rulesFrom offset .between found (l :: ls ++ rest)
      = rulesFrom (offset + (texts (l :: ls)).length) (.prelude offset (texts (l :: ls)).reverse)
          found rest := by
  obtain ⟨c, cs, htext, -, -⟩ := exists_of_begins hbegins
  have hne : l.text.reverse ≠ [] := by simp [htext]
  have hfits : ∀ l' ∈ ls, l'.fitsPrelude (isDirective l.text.reverse) = true := by
    rw [isDirective_of_begins hbegins]
    exact fun l' hl' => h l' (List.mem_cons_of_mem _ hl')
  rw [List.cons_append, rulesFrom_begins hbegins (h l List.mem_cons_self),
    rulesFrom_prelude hne hfits, texts_cons, List.length_append, List.reverse_append,
    Nat.add_assoc]

/-- **The pass finds the rule** and goes on behind it as it would without it. -/
theorem rulesFrom_isRule {rule : Rule} (h : IsRule ls rule) (rest : List Lexeme) :
    rulesFrom offset .between found (ls ++ rest)
      = rulesFrom (offset + (texts ls).length) .between (rule :: found) rest := by
  cases h with
  | @directive prelude hprelude =>
    have hfits : ∀ l ∈ Lexeme.plain '@' :: prelude,
        l.fitsPrelude (Lexeme.plain '@' = .plain '@') = true := by
      rw [decide_eq_true rfl]
      exact List.forall_mem_cons.mpr ⟨rfl, hprelude⟩
    have hend : ∀ place : Nat,
        Progress.step place (.prelude offset (texts (.plain '@' :: prelude)).reverse) (.plain ';')
          = .ok (.between,
              [directive (texts (.plain '@' :: prelude ++ [.plain ';'])).reverse]) := by
      intro place
      refine step_prelude_eq_ok_iff.mpr (.inr (.inl ⟨rfl, ?_, rfl, ?_⟩))
      · rw [texts_cons, List.reverse_append]
        exact isDirective_append (List.cons_ne_nil _ _) _
      · rw [texts_append, List.reverse_append]
        rfl
    rw [List.append_assoc, rulesFrom_begins_prelude rfl hfits, List.singleton_append,
      rulesFrom_cons (hend _), texts_append (.plain '@' :: prelude), List.length_append,
      ← Nat.add_assoc]
    rfl
  | @block first prelude block hfirst hprelude hblock =>
    have hselector : Text.trim (texts (first :: prelude)) ≠ [] := by
      obtain ⟨c, cs, htext, hblank, -⟩ := exists_of_begins hfirst
      rw [texts_cons, htext]
      exact trim_ne_nil hblank _
    have hopen : ∀ place : Nat,
        Progress.step place (.prelude offset (texts (first :: prelude)).reverse) (.plain '\x7b')
          = .ok (.block place (String.ofList (Text.trim (texts (first :: prelude)))) 0
              ('\x7b' :: (texts (first :: prelude)).reverse), []) := by
      intro place
      refine step_prelude_eq_ok_iff.mpr (.inr (.inr ⟨rfl, ?_, ?_, rfl⟩))
      · rw [List.reverse_reverse]
        exact hselector
      · rw [List.reverse_reverse]
    have htexts : texts (first :: prelude ++ .plain '\x7b' :: block)
        = ('\x7b' :: (texts (first :: prelude)).reverse).reverse ++ texts block := by
      rw [List.reverse_cons, List.reverse_reverse, List.append_assoc, texts_append]
      rfl
    rw [List.append_assoc, rulesFrom_begins_prelude hfirst hprelude, List.cons_append,
      rulesFrom_cons (hopen _), List.nil_append, rulesFrom_closes hblock, htexts,
      List.length_append, List.length_reverse, List.length_cons, List.length_reverse,
      ← Nat.add_assoc]
    rfl

/-- **The pass accepts every stylesheet** and finds its rules. -/
theorem rulesFrom_isSheet (h : IsSheet ls rules) :
    rulesFrom offset .between found ls = .ok (found.reverse ++ rules) := by
  induction h generalizing offset found with
  | nil =>
    rw [List.append_nil]
    rfl
  | @gap l ls rules hl _ ih =>
    have hstep : Progress.step offset .between l = .ok (.between, []) := by
      rw [step_between, if_pos hl]
    rw [rulesFrom_cons hstep, List.nil_append, ih]
  | @rule ls ls' rule rules hrule _ ih =>
    rw [rulesFrom_isRule hrule, ih, List.reverse_cons, List.append_assoc]
    rfl

/-! ## From the pass to the grammar -/

/-- If the pass comes to its end from inside a block, the block is closed somewhere. -/
theorem exists_closes
    (h : rulesFrom offset (.block brace selector depth text) found ls = .ok rules) :
    ∃ block rest offset', ls = block ++ rest ∧ Closes depth block ∧
      rulesFrom offset' .between
        (⟨selector, String.ofList (text.reverse ++ texts block)⟩ :: found) rest = .ok rules := by
  induction ls generalizing offset depth text with
  | nil => cases h
  | cons l ls ih =>
    obtain ⟨next, ended, hstep, hrest⟩ := exists_of_rulesFrom_cons h
    rcases step_block_eq_ok_iff.mp hstep with
      ⟨hfits, rfl, rfl⟩ | ⟨rfl, rfl, rfl⟩ | ⟨rfl, inner, rfl, rfl, rfl⟩ | ⟨rfl, rfl, rfl, rfl⟩
    · obtain ⟨block, rest, offset', rfl, hcloses, hblock⟩ := ih hrest
      refine ⟨l :: block, rest, offset', rfl, .other hfits hcloses, ?_⟩
      rw [← hblock]
      simp
    · obtain ⟨block, rest, offset', rfl, hcloses, hblock⟩ := ih hrest
      refine ⟨.plain '\x7b' :: block, rest, offset', rfl, .opens hcloses, ?_⟩
      rw [← hblock]
      simp [Lexeme.text]
    · obtain ⟨block, rest, offset', rfl, hcloses, hblock⟩ := ih hrest
      refine ⟨.plain '\x7d' :: block, rest, offset', rfl, .close hcloses, ?_⟩
      rw [← hblock]
      simp [Lexeme.text]
    · refine ⟨[.plain '\x7d'], ls, offset + 1, rfl, .last, ?_⟩
      rw [← hrest, List.reverse_cons]
      rfl

/-- If the pass comes to its end from inside a prelude, the directive ends somewhere, or there is a
block. -/
theorem exists_prelude (htext : text ≠ [])
    (h : rulesFrom offset (.prelude start text) found ls = .ok rules) :
    ∃ prelude rest offset', (∀ l ∈ prelude, l.fitsPrelude (isDirective text) = true) ∧
      ((isDirective text = true ∧ ls = prelude ++ .plain ';' :: rest ∧
          rulesFrom offset' .between
            (directive (';' :: ((texts prelude).reverse ++ text)) :: found) rest = .ok rules) ∨
        ∃ block, ls = prelude ++ .plain '\x7b' :: block ++ rest ∧ Closes 0 block ∧
          rulesFrom offset' .between
            (⟨String.ofList (Text.trim (text.reverse ++ texts prelude)),
              String.ofList (text.reverse ++ texts (prelude ++ .plain '\x7b' :: block))⟩ :: found)
            rest = .ok rules) := by
  induction ls generalizing offset text with
  | nil => cases h
  | cons l ls ih =>
    obtain ⟨next, ended, hstep, hrest⟩ := exists_of_rulesFrom_cons h
    rcases step_prelude_eq_ok_iff.mp hstep with
      ⟨hfits, rfl, rfl⟩ | ⟨rfl, hdirective, rfl, rfl⟩ | ⟨rfl, -, rfl, rfl⟩
    · have hne : l.text.reverse ++ text ≠ [] := List.append_ne_nil_of_right_ne_nil _ htext
      obtain ⟨prelude, rest, offset', hprelude, hend⟩ := ih hne hrest
      rw [isDirective_append htext] at hprelude hend
      refine ⟨l :: prelude, rest, offset', List.forall_mem_cons.mpr ⟨hfits, hprelude⟩, ?_⟩
      rcases hend with ⟨hdirective, rfl, hrules⟩ | ⟨block, rfl, hcloses, hrules⟩
      · refine .inl ⟨hdirective, rfl, ?_⟩
        rw [← hrules, texts_cons, List.reverse_append, List.append_assoc]
      · refine .inr ⟨block, rfl, hcloses, ?_⟩
        rw [← hrules]
        simp
    · exact ⟨[], ls, _, List.forall_mem_nil _, .inl ⟨hdirective, rfl, hrest⟩⟩
    · obtain ⟨block, rest, offset', rfl, hcloses, hblock⟩ := exists_closes hrest
      refine ⟨[], rest, offset', List.forall_mem_nil _, .inr ⟨block, rfl, hcloses, ?_⟩⟩
      rw [← hblock]
      simp [Lexeme.text]

/-- What stands in a prelude and is not a gap can begin a rule, if strings begin with a quote. -/
theorem begins_of_fits (hgap : l.isGap = false) (hfits : l.fitsPrelude false = true)
    (hquoted : ∀ text, l = .quoted text → text.head?.any isQuote = true) : l.begins = true := by
  cases l with
  | plain c => simpa [isGap, begins] using hgap
  | comment text => cases hgap
  | quoted text => exact hquoted text rfl
  | unterminated text => cases hfits

/-- If the pass comes to its end, then what is not a gap is the beginning of a rule. -/
theorem exists_isRule (hgap : l.isGap = false)
    (hquoted : ∀ text, l = .quoted text → text.head?.any isQuote = true)
    (h : rulesFrom offset .between found (l :: ls) = .ok rules) :
    ∃ rule more rest offset', ls = more ++ rest ∧ IsRule (l :: more) rule ∧
      rulesFrom offset' .between (rule :: found) rest = .ok rules := by
  obtain ⟨next, ended, hstep, hrest⟩ := exists_of_rulesFrom_cons h
  rw [step_between, hgap, if_neg Bool.false_ne_true] at hstep
  rcases step_prelude_eq_ok_iff.mp hstep with
    ⟨hfits, rfl, rfl⟩ | ⟨-, hdirective, -⟩ | ⟨-, hselector, -⟩
  · have hbegins := begins_of_fits hgap hfits hquoted
    have hne : l.text.reverse ≠ [] := by
      obtain ⟨c, cs, htext, -⟩ := exists_of_begins hbegins
      simp [htext]
    rw [List.append_nil, List.nil_append] at hrest
    obtain ⟨prelude, rest, offset', hprelude, hend⟩ := exists_prelude hne hrest
    rw [isDirective_of_begins hbegins] at hprelude hend
    rcases hend with ⟨hdirective, rfl, hrules⟩ | ⟨block, rfl, hcloses, hrules⟩
    · cases of_decide_eq_true hdirective
      have hrule := IsRule.directive hprelude
      refine ⟨_, prelude ++ [Lexeme.plain ';'], rest, offset', by simp, hrule, ?_⟩
      rw [← hrules]
      simp [Lexeme.text]
    · have hall : ∀ l' ∈ l :: prelude, l'.fitsPrelude (l = .plain '@') = true := by
        refine List.forall_mem_cons.mpr ⟨?_, hprelude⟩
        by_cases hat : l = .plain '@'
        · rw [hat]
          rfl
        · rw [decide_eq_false hat]
          exact hfits
      refine ⟨_, prelude ++ .plain '\x7b' :: block, rest, offset', rfl,
        .block hbegins hall hcloses, ?_⟩
      rw [← hrules]
      simp
  · cases hdirective
  · exact absurd rfl hselector

end Runs

/-- **The pass accepts stylesheets only.** -/
theorem isSheet_of_rulesFrom {offset : Nat} {found rules : List Rule} {ls : List Lexeme}
    (hquoted : ∀ text, .quoted text ∈ ls → text.head?.any isQuote = true)
    (h : rulesFrom offset .between found ls = .ok rules) :
    ∃ more, rules = found.reverse ++ more ∧ IsSheet ls more := by
  match ls with
  | [] =>
    cases h
    exact ⟨[], (List.append_nil _).symm, .nil⟩
  | l :: ls =>
    cases hgap : l.isGap with
    | true =>
      obtain ⟨next, ended, hstep, hrest⟩ := exists_of_rulesFrom_cons h
      rw [step_between, hgap, if_pos rfl] at hstep
      cases hstep
      obtain ⟨more, hrules, hsheet⟩ := isSheet_of_rulesFrom
        (fun text htext => hquoted text (List.mem_cons_of_mem _ htext)) hrest
      exact ⟨more, hrules, .gap hgap hsheet⟩
    | false =>
      obtain ⟨rule, prelude, rest, offset', rfl, hrule, hrest⟩ := exists_isRule hgap
        (fun text htext => hquoted text (htext ▸ List.mem_cons_self)) h
      obtain ⟨more, hrules, hsheet⟩ := isSheet_of_rulesFrom
        (fun text htext => hquoted text (List.mem_cons_of_mem _ (List.mem_append_right _ htext)))
        hrest
      refine ⟨rule :: more, ?_, .rule hrule hsheet⟩
      rw [hrules, List.reverse_cons, List.append_assoc]
      rfl
termination_by ls.length

/-- **Reading a source succeeds if and only if its lexemes are those of a stylesheet**, and then the
rules are the rules of that stylesheet. -/
theorem parse_eq_ok_iff {source : String} {sheet : Stylesheet} :
    parse source = .ok sheet ↔ IsSheet (lexemes source.toList) sheet.rules := by
  unfold parse
  dsimp only
  constructor
  · intro h
    split at h
    · next rules hrules =>
      cases h
      obtain ⟨more, rfl, hsheet⟩ := isSheet_of_rulesFrom (fun _ => head?_of_quoted_mem) hrules
      exact hsheet
    · cases h
  · intro h
    have hrules : rulesFrom 0 .between [] (lexemes source.toList) = .ok sheet.rules :=
      rulesFrom_isSheet h
    rw [hrules]

end Pagewright.Stylesheet
