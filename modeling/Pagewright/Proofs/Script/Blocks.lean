import Pagewright.Proofs.Indentation
import Pagewright.Proofs.Script.Calls
import Pagewright.Proofs.Script.Terms

/-!
# The blocks of a script

A script is written on the way through the document: functions first, then statements, and while
each expression is written a flag is set when a textbox is read. Whether the function that reads
textboxes comes at the end depends on this flag, which has gone through all expressions by then.

Here the script is described without a way through anything. Each statement has its line, each
function its block of lines, and the blocks of a document can be listed (`Document.scriptBlocks`).
Whether a textbox is read can be seen from the parts of the expressions. If the script is written at
all, it consists of these blocks with one empty line between each two (`InBlocks`).

Names go into the script as they are, so a line feed in a name would break a line. Texts and the
names of textboxes are literals of the script, in which a line feed is escaped. So nothing is asked
of them.
-/

namespace Pagewright

/-! ## Texts in blocks -/

/-- **The text is a line**: it has no line feed, and something on it other than blanks. -/
def IsLine (line : String) : Prop :=
  Text.allBlank line = false ∧ '\n' ∉ line.toList

/-- **The text consists of these blocks of lines.** Every line is ended, and an empty line stands
between each two blocks. There are no other empty lines, neither in front nor at the end, since a
block has lines and none of them is empty. -/
structure InBlocks (text : String) (blocks : List (List String)) : Prop where
  text_eq : text = Layout.ended ([""].intercalate blocks)
  ne_nil : ∀ block ∈ blocks, block ≠ []
  isLine : ∀ block ∈ blocks, ∀ line ∈ block, IsLine line

theorem Layout.linesOf_spaced (groups : List (List Layout)) :
    linesOf (spaced groups) = [""].intercalate (groups.map linesOf) := by
  induction groups with
  | nil => rfl
  | cons pieces rest ih =>
    cases rest with
    | nil => simp [spaced]
    | cons next rest =>
      rw [List.map_cons, List.map_cons, List.intercalate_cons_cons, ← List.map_cons, ← ih, spaced,
        linesOf_append, linesOf, lines, List.append_assoc]
      exact nofun

/-! ## The code of an expression -/

namespace Expression

/-- The expression is an operation, which needs parentheses inside another one. -/
def isOperation : Expression → Bool
  | operation _ _ _ => true
  | _ => false

/-- The expression is the value of a textbox. -/
def isTextbox : Expression → Bool
  | textbox _ => true
  | _ => false

/-- **A textbox is read** somewhere in the expression. -/
def readsTextbox (e : Expression) : Bool :=
  e.parts.any isTextbox

/-- Code as an operand. -/
def asOperand (isOperation : Bool) (code : String) : String :=
  if isOperation then "(" ++ code ++ ")" else code

/-- **The code of an expression.** -/
def code : Expression → String
  | text value => Script.literal value
  | number value => numberText value
  | symbol name => name
  | textbox name => Script.textboxFunction ++ "(" ++ Script.literal name ++ ")"
  | operation left op right =>
    asOperand left.isOperation left.code ++ " " ++ op.symbol ++ " " ++
      asOperand right.isOperation right.code

theorem readsTextbox_operation (left right : Expression) (op : Operator) :
    (operation left op right).readsTextbox = (left.readsTextbox || right.readsTextbox) := by
  unfold readsTextbox
  rw [parts, List.any_cons, List.any_append]
  rfl

end Expression

/-! ## The lines of statements and functions -/

/-- **The line of a statement.** -/
def Statement.line : Statement → String
  | alert value => "alert(" ++ value.code ++ ");"
  | const name value => "const " ++ name ++ " = " ++ value.code ++ ";"

/-- The line that opens a function. -/
def Function.header (f : Function) : String :=
  "function " ++ f.name ++ "(" ++ ", ".intercalate f.params ++ ") \x7b"

/-- **The lines of a function**, its statements indented. -/
def Function.block (f : Function) : List String :=
  f.header :: f.body.map (fun s => Layout.indent ++ s.line) ++ ["\x7d"]

/-- **The lines of the function that reads a textbox.** -/
def Script.readerBlock : List String :=
  ["function __simpleuiTextboxValue(id) \x7b",
   "    const el = document.getElementById(id);",
   "    if (!el) return \"\";",
   "    const raw = el.value;",
   "    const n = Number(raw);",
   "    return raw.trim() !== \"\" && !Number.isNaN(n) ? n : raw;",
   "\x7d"]

namespace Document

/-- **A textbox is read** in some expression of the script, however deep inside it. -/
def ReadsTextbox (doc : Document) : Prop :=
  ∃ s ∈ doc.scripted, ∃ e ∈ s.value.parts, e.isTextbox = true

instance (doc : Document) : Decidable doc.ReadsTextbox :=
  inferInstanceAs (Decidable (∃ s ∈ doc.scripted, ∃ e ∈ s.value.parts, e.isTextbox = true))

/-- The blocks that are written for the document's own functions and statements. -/
def ownBlocks (doc : Document) : List (List String) :=
  doc.functions.map Function.block ++
    if doc.statements.isEmpty then [] else [doc.statements.map Statement.line]

/-- **The blocks of a script**: one for each function, one for all the statements, and one for the
function that reads textboxes if any is read. -/
def scriptBlocks (doc : Document) : List (List String) :=
  doc.ownBlocks ++ if doc.ReadsTextbox then [Script.readerBlock] else []

/-- **No name in the script has a line feed**: neither the names of functions, parameters and
constants nor the names that expressions refer to. -/
structure OneLineNames (doc : Document) : Prop where
  functions : ∀ f ∈ doc.functions, ∀ name ∈ f.name :: f.params, '\n' ∉ name.toList
  statements : ∀ s ∈ doc.scripted, ∀ name ∈ s.defined?.toList ++ s.value.names,
    '\n' ∉ name.toList

end Document

/-! ## What is written -/

/-- The layout of a function. -/
def Function.layout (f : Function) : Layout :=
  .group f.header (f.body.map fun s => .text s.line) "\x7d"

/-- The layouts of the document's own functions and statements. -/
def Document.ownLayouts (doc : Document) : List (List Layout) :=
  doc.functions.map ([·.layout]) ++
    if doc.statements.isEmpty then [] else [doc.statements.map fun s => .text s.line]

namespace Script

variable {α β : Type}

/-- **What is written if the writing succeeds, and what becomes of the flag.** It is set if `reads`
says so, and otherwise it is left as it was. -/
def Writes (m : Writing α) (Q : α → Prop) (reads : Bool) : Prop :=
  ∀ b a b', (ExceptT.run m).run b = (.ok a, b') → Q a ∧ b' = (b || reads)

theorem Writes.pure {a : α} {Q : α → Prop} (h : Q a) : Writes (pure a) Q false := by
  intro b a' b' hrun
  cases hrun
  exact ⟨h, (Bool.or_false b).symm⟩

theorem Writes.bind {m : Writing α} {f : α → Writing β} {Q : α → Prop} {R : β → Prop}
    {reads reads' : Bool} (hm : Writes m Q reads) (hf : ∀ a, Q a → Writes (f a) R reads') :
    Writes (m >>= f) R (reads || reads') := by
  intro b c b'' hrun
  obtain ⟨a, b', hfirst, hsecond⟩ := exists_of_run_bind_ok hrun
  obtain ⟨ha, rfl⟩ := hm b a b' hfirst
  obtain ⟨hc, rfl⟩ := hf a ha _ c b'' hsecond
  exact ⟨hc, Bool.or_assoc _ _ _⟩

/-- What is done with the value afterwards does not touch the flag. -/
theorem Writes.map {m : Writing α} {Q : α → Prop} {R : β → Prop} {reads : Bool}
    (hm : Writes m Q reads) {g : α → β} (hg : ∀ a, Q a → R (g a)) :
    Writes (m >>= fun a => Pure.pure (g a)) R reads := by
  have h := hm.bind (fun a ha => Writes.pure (hg a ha))
  rwa [Bool.or_false] at h

/-- **The flag goes through a list item by item.** -/
theorem Writes.mapM {f : α → Writing β} {g : α → β} {reads : α → Bool} {xs : List α}
    (h : ∀ x ∈ xs, Writes (f x) (· = g x) (reads x)) :
    Writes (xs.mapM f) (· = xs.map g) (xs.any reads) := by
  induction xs with
  | nil => exact Writes.pure rfl
  | cons x xs ih =>
    rw [List.mapM_cons, List.any_cons]
    refine (h x List.mem_cons_self).bind (fun b hb => ?_)
    refine (ih (fun y hy => h y (List.mem_cons_of_mem _ hy))).map (fun bs hbs => ?_)
    rw [hb, hbs, List.map_cons]

/-- **An expression is written as its code**, and the flag is set if a textbox is read in it. -/
theorem writes_expression (e : Expression) :
    Writes (expression e) (fun f => f.code = e.code ∧ f.isOperation = e.isOperation)
      e.readsTextbox := by
  induction e with
  | text value => exact Writes.pure ⟨rfl, rfl⟩
  | number value => exact Writes.pure ⟨rfl, rfl⟩
  | symbol name => exact Writes.pure ⟨rfl, rfl⟩
  | textbox name =>
    intro b f b' hrun
    cases hrun
    exact ⟨⟨rfl, rfl⟩, (Bool.or_true b).symm⟩
  | operation left op right ihl ihr =>
    rw [Expression.readsTextbox_operation]
    refine ihl.bind (fun l hl => ?_)
    rw [← Bool.or_false right.readsTextbox]
    refine ihr.bind (fun r hr => ?_)
    cases operationType op l.type r.type with
    | error e => exact fun _ _ _ hrun => nomatch hrun
    | ok type =>
      have hoperand {f : Fragment} {e : Expression}
          (hf : f.code = e.code ∧ f.isOperation = e.isOperation) :
          f.operand = Expression.asOperand e.isOperation e.code := by
        rw [← hf.1, ← hf.2]
        rfl
      refine Writes.pure ⟨?_, rfl⟩
      show l.operand ++ " " ++ op.symbol ++ " " ++ r.operand = _
      rw [hoperand hl, hoperand hr, Expression.code]

/-- **A statement is written as its line.** -/
theorem writes_statement (s : Statement) :
    Writes (statement s) (· = s.line) s.value.readsTextbox := by
  cases s with
  | alert value => exact (writes_expression value).map (fun f hf => by rw [hf.1]; rfl)
  | const name value => exact (writes_expression value).map (fun f hf => by rw [hf.1]; rfl)

theorem writes_statements (body : List Statement) :
    Writes (statements body) (· = body.map fun s => Layout.text s.line)
      (body.any (·.value.readsTextbox)) :=
  Writes.mapM fun s _ => (writes_statement s).map (fun _ hline => congrArg Layout.text hline)

/-- **A function is written around its statements.** -/
theorem writes_function (f : Function) :
    Writes (function f) (· = f.layout) (f.body.any (·.value.readsTextbox)) :=
  (writes_statements f.body).map (fun pieces hpieces => by rw [hpieces]; rfl)

/-- **The blocks are written in order**, and the flag has gone through all of them. -/
theorem writes_blocks (doc : Document) :
    Writes (blocks doc) (· = doc.ownLayouts) (doc.scripted.any (·.value.readsTextbox)) := by
  have heach : ∀ f ∈ doc.functions, Writes (do return [← function f]) (· = [f.layout])
      (f.body.any (·.value.readsTextbox)) :=
    fun f _ => (writes_function f).map (fun _ hlayout => congrArg ([·]) hlayout)
  unfold Document.scripted
  rw [List.any_append, List.any_flatMap]
  refine (Writes.mapM heach).bind fun functions hfunctions =>
    (writes_statements doc.statements).map fun top htop => ?_
  rw [hfunctions, htop, List.isEmpty_map]
  rfl

end Script

/-! ## One line for each statement -/

theorem Script.feed_not_mem_literal (s : String) : '\n' ∉ (literal s).toList := by
  have hnone : '\n' ∉ s.toList.flatMap literalChar := fun hmem => by
    obtain ⟨c, -, hc⟩ := List.mem_flatMap.mp hmem
    exact not_mem_literalChar (by decide) c hc
  simp [literal, hnone]

theorem feed_not_mem_numberText (x : Float) : '\n' ∉ (numberText x).toList :=
  fun hmem => nomatch (Script.isNumberChar_of_mem_numberText x).2 _ hmem

/-- **The code of an expression has no line feed** if its names have none, whatever texts and
textboxes there are. -/
theorem Expression.feed_not_mem_code {e : Expression} (h : ∀ name ∈ e.names, '\n' ∉ name.toList) :
    '\n' ∉ e.code.toList := by
  induction e with
  | text value => exact Script.feed_not_mem_literal value
  | number value => exact feed_not_mem_numberText value
  | symbol name => exact h name List.mem_cons_self
  | textbox name => simp [code, Script.textboxFunction, Script.feed_not_mem_literal]
  | operation left op right ihl ihr =>
    have hleft := ihl fun name hname => h name (List.mem_append_left _ hname)
    have hright := ihr fun name hname => h name (List.mem_append_right _ hname)
    have hoperand {isOperation : Bool} {code : String} (hcode : '\n' ∉ code.toList) :
        '\n' ∉ (asOperand isOperation code).toList := by
      cases isOperation <;> simp [asOperand, hcode]
    have hop : '\n' ∉ op.symbol.toList := by cases op <;> decide
    simp [code, hop, hoperand hleft, hoperand hright]

theorem feed_not_mem_intercalate {separator : List Char} {texts : List (List Char)}
    (hseparator : '\n' ∉ separator) (h : ∀ text ∈ texts, '\n' ∉ text) :
    '\n' ∉ separator.intercalate texts := by
  induction texts with
  | nil => exact List.not_mem_nil
  | cons text texts ih =>
    obtain ⟨htext, htexts⟩ := List.forall_mem_cons.mp h
    cases texts with
    | nil => simpa using htext
    | cons next texts =>
      rw [List.intercalate_cons_cons, List.mem_append, List.mem_append, not_or, not_or]
      exact ⟨⟨htext, hseparator⟩, ih htexts⟩

theorem IsLine.lines_eq {line : String} (h : IsLine line) : Text.lines line = [line] := by
  refine Html.Reader.lines_eq_singleton (fun hnil => ?_) h.2
  have hblank := h.1
  rw [Text.allBlank, hnil] at hblank
  cases hblank

theorem IsLine.deeper_eq {line : String} (h : IsLine line) :
    Layout.deeper line = Layout.indent ++ line := by
  refine if_neg fun hempty => ?_
  have hblank := h.1
  rw [String.isEmpty_iff.mp hempty] at hblank
  cases hblank

theorem IsLine.indented {line : String} (h : IsLine line) : IsLine (Layout.indent ++ line) := by
  refine ⟨?_, ?_⟩
  · have hblank := h.1
    unfold Text.allBlank at hblank ⊢
    rw [String.toList_append, List.all_append, hblank, Bool.and_false]
  · rw [String.toList_append]
    simp [Layout.indent, h.2]

/-- A line that begins with a character other than a blank. -/
theorem isLine_of_head {line : String} {c : Char} {cs : List Char} (h : line.toList = c :: cs)
    (hc : Text.isBlank c = false) (hfeed : '\n' ∉ line.toList) : IsLine line := by
  refine ⟨?_, hfeed⟩
  rw [Text.allBlank, h, List.all_cons, hc, Bool.false_and]

/-- The line of a statement begins with one of two words, and ends in a semicolon. -/
theorem Statement.line_shape (s : Statement) :
    ∃ c cs, s.line.toList = c :: cs ++ [';'] ∧ c ∈ ['a', 'c'] := by
  cases s with
  | alert value =>
    exact ⟨'a', "lert(".toList ++ value.code.toList ++ [')'], by simp [line], by decide⟩
  | const name value =>
    exact ⟨'c', "onst ".toList ++ name.toList ++ " = ".toList ++ value.code.toList,
      by simp [line], by decide⟩

theorem Statement.isLine_line {s : Statement}
    (h : ∀ name ∈ s.defined?.toList ++ s.value.names, '\n' ∉ name.toList) : IsLine s.line := by
  obtain ⟨c, cs, hcs, hc⟩ := s.line_shape
  have hblank : ['a', 'c'].all (fun c => !Text.isBlank c) = true := by decide
  refine isLine_of_head hcs (by simpa using List.all_eq_true.mp hblank c hc) ?_
  have hcode : '\n' ∉ s.value.code.toList :=
    Expression.feed_not_mem_code fun name hname => h name (List.mem_append_right _ hname)
  cases s with
  | alert value =>
    rw [Statement.value] at hcode
    simp [line, hcode]
  | const name value =>
    rw [Statement.value] at hcode
    have hname : '\n' ∉ name.toList := h name (List.mem_append_left _ (List.mem_singleton.mpr rfl))
    simp [line, hname, hcode]

theorem Function.isLine_header {f : Function}
    (h : ∀ name ∈ f.name :: f.params, '\n' ∉ name.toList) : IsLine f.header := by
  obtain ⟨hname, hparams⟩ := List.forall_mem_cons.mp h
  have hlist : '\n' ∉ [',', ' '].intercalate (f.params.map String.toList) :=
    feed_not_mem_intercalate (by decide) (List.forall_mem_map.mpr hparams)
  refine isLine_of_head (c := 'f') (by simp [header]; rfl) (by decide) ?_
  simp [header, hname, hlist]

/-! ## The lines of the layouts -/

theorem linesOf_statements {body : List Statement} (h : ∀ s ∈ body, IsLine s.line) :
    Layout.linesOf (body.map fun s => .text s.line) = body.map Statement.line := by
  induction body with
  | nil => rfl
  | cons s body ih =>
    obtain ⟨hs, hbody⟩ := List.forall_mem_cons.mp h
    rw [List.map_cons, Layout.linesOf, Layout.lines, hs.lines_eq, ih hbody]
    rfl

theorem Function.lines_layout {f : Function} (hheader : IsLine f.header)
    (hbody : ∀ s ∈ f.body, IsLine s.line) : f.layout.lines = f.block := by
  have hdeeper : (f.body.map Statement.line).map Layout.deeper
      = f.body.map fun s => Layout.indent ++ s.line := by
    rw [List.map_map]
    exact List.map_congr_left fun s hs => (hbody s hs).deeper_eq
  have hclosing : Text.lines "\x7d" = ["\x7d"] := rfl
  rw [layout, Layout.lines, hheader.lines_eq, linesOf_statements hbody, hdeeper, hclosing]
  rfl

theorem Script.linesOf_textboxReader : Layout.linesOf [textboxReader] = readerBlock := by
  decide +kernel

/-- The lines of the function that reads textboxes are lines. -/
theorem Script.isLine_readerBlock : ∀ line ∈ readerBlock, IsLine line := by
  unfold IsLine
  decide +kernel

/-- **The function that reads textboxes is none of the document's own.** One of its statements is
neither an alert nor a constant. -/
theorem Document.readerBlock_not_mem_ownBlocks (doc : Document) :
    Script.readerBlock ∉ doc.ownBlocks := by
  have hcheck : "    if (!el) return \"\";" ∈ Script.readerBlock := by decide +kernel
  have htext : "    if (!el) return \"\";".toList
      = Layout.indent.toList ++ 'i' :: "f (!el) return \"\";".toList := by decide +kernel
  intro hmem
  rcases List.mem_append.mp hmem with hmem | hmem
  · obtain ⟨f, -, hf⟩ := List.mem_map.mp hmem
    rw [← hf] at hcheck
    rcases List.mem_append.mp hcheck with hcheck | hcheck
    · rcases List.mem_cons.mp hcheck with hcheck | hcheck
      · have hheader := congrArg String.toList hcheck
        simp [Function.header] at hheader
      · obtain ⟨s, -, hs⟩ := List.mem_map.mp hcheck
        obtain ⟨c, cs, hcs, hc⟩ := s.line_shape
        have hline := congrArg String.toList hs
        rw [String.toList_append, htext, hcs] at hline
        cases (List.cons.inj (List.append_cancel_left hline)).1
        revert hc
        decide
    · revert hcheck
      decide +kernel
  · split at hmem
    · cases hmem
    · rw [List.mem_singleton.mp hmem] at hcheck
      obtain ⟨s, -, hs⟩ := List.mem_map.mp hcheck
      obtain ⟨c, cs, hcs, hc⟩ := s.line_shape
      have hline := congrArg String.toList hs
      rw [htext, hcs] at hline
      cases (List.cons.inj hline).1
      revert hc
      decide

namespace Document

variable {doc : Document}

theorem OneLineNames.isLine_line (h : doc.OneLineNames) {s : Statement} (hs : s ∈ doc.scripted) :
    IsLine s.line :=
  Statement.isLine_line (h.statements s hs)

theorem OneLineNames.isLine_body (h : doc.OneLineNames) {f : Function} (hf : f ∈ doc.functions) :
    ∀ s ∈ f.body, IsLine s.line :=
  fun _ hs => h.isLine_line (List.mem_append_left _ (List.mem_flatMap.mpr ⟨f, hf, hs⟩))

theorem OneLineNames.isLine_statements (h : doc.OneLineNames) :
    ∀ s ∈ doc.statements, IsLine s.line :=
  fun _ hs => h.isLine_line (List.mem_append_right _ hs)

/-- The layouts of the document's own functions and statements have the lines of its blocks. -/
theorem OneLineNames.map_linesOf (h : doc.OneLineNames) :
    doc.ownLayouts.map Layout.linesOf = doc.ownBlocks := by
  unfold ownLayouts ownBlocks
  rw [List.map_append, List.map_map]
  refine congrArg₂ (· ++ ·) ?_ ?_
  · refine List.map_congr_left fun f hf => ?_
    show f.layout.lines ++ [] = f.block
    rw [List.append_nil, Function.lines_layout (Function.isLine_header (h.functions f hf))
      (h.isLine_body hf)]
  · split
    · rfl
    · rw [List.map_singleton, linesOf_statements h.isLine_statements]

/-- Every line of the document's own blocks is a line, and no block is without lines. -/
theorem OneLineNames.isLine_ownBlocks (h : doc.OneLineNames) {block : List String}
    (hblock : block ∈ doc.ownBlocks) : block ≠ [] ∧ ∀ line ∈ block, IsLine line := by
  rcases List.mem_append.mp hblock with hblock | hblock
  · obtain ⟨f, hf, rfl⟩ := List.mem_map.mp hblock
    refine ⟨List.cons_ne_nil _ _, fun line hline => ?_⟩
    rcases List.mem_append.mp hline with hline | hline
    · rcases List.mem_cons.mp hline with rfl | hline
      · exact Function.isLine_header (h.functions f hf)
      · obtain ⟨s, hs, rfl⟩ := List.mem_map.mp hline
        exact (h.isLine_body hf s hs).indented
    · rw [List.mem_singleton.mp hline]
      exact ⟨by decide, by decide⟩
  · split at hblock
    · cases hblock
    · next hne =>
      rw [List.mem_singleton.mp hblock]
      exact ⟨by simpa using hne, List.forall_mem_map.mpr h.isLine_statements⟩

/-- The flag tells whether a textbox is read. -/
theorem any_readsTextbox_iff (doc : Document) :
    doc.scripted.any (·.value.readsTextbox) = true ↔ doc.ReadsTextbox := by
  unfold ReadsTextbox Expression.readsTextbox
  simp only [List.any_eq_true]

/-- **What is written are the lines of the blocks**, with an empty line between each two of them. -/
theorem OneLineNames.text_eq (h : doc.OneLineNames) {text : String}
    (hscript : doc.script = .ok text) :
    text = Layout.ended ([""].intercalate doc.scriptBlocks) := by
  unfold script at hscript
  cases hrun : (ExceptT.run (Script.blocks doc)).run false with
  | mk result reads =>
    rw [hrun] at hscript
    cases result with
    | error e => cases hscript
    | ok blocks =>
      cases hscript
      obtain ⟨rfl, rfl⟩ := Script.writes_blocks doc false blocks reads hrun
      have hreader : (if doc.scripted.any (·.value.readsTextbox) then [[Script.textboxReader]]
            else []).map Layout.linesOf
          = if doc.ReadsTextbox then [Script.readerBlock] else [] := by
        by_cases hreads : doc.ReadsTextbox
        · rw [if_pos (doc.any_readsTextbox_iff.mpr hreads), if_pos hreads, List.map_singleton,
            Script.linesOf_textboxReader]
        · rw [if_neg (mt doc.any_readsTextbox_iff.mp hreads), if_neg hreads, List.map_nil]
      dsimp only
      rw [Layout.render_eq, Layout.linesOf_spaced, List.map_append, h.map_linesOf, Bool.false_or,
        hreader]
      rfl

/-- **A script consists of blocks.** Let no name in the script of a document have a line feed, and
let the script be written. Then it consists of one block for each function, one block for all the
statements if there are any, and the block of the function that reads textboxes, in this order. The
last one is there once if a textbox is read anywhere in the script, and otherwise it is not there.
Every statement stands on one line, which ends in a semicolon. -/
theorem script_inBlocks (doc : Document) (hnames : doc.OneLineNames) (text : String)
    (hscript : doc.script = .ok text) :
    InBlocks text doc.scriptBlocks ∧
      doc.scriptBlocks.count Script.readerBlock = (if doc.ReadsTextbox then 1 else 0) ∧
      ∀ s ∈ doc.scripted, IsLine s.line ∧ s.line.toList.getLast? = some ';' := by
  refine ⟨?_, ?_, fun s hs => ⟨hnames.isLine_line hs, ?_⟩⟩
  · have hblock {block : List String} (hmem : block ∈ doc.scriptBlocks) :
        block ≠ [] ∧ ∀ line ∈ block, IsLine line := by
      rcases List.mem_append.mp hmem with hmem | hmem
      · exact hnames.isLine_ownBlocks hmem
      · rw [(List.mem_ite_nil_right.mp hmem).2 |> List.mem_singleton.mp]
        exact ⟨by decide, Script.isLine_readerBlock⟩
    exact ⟨hnames.text_eq hscript, fun _ hmem => (hblock hmem).1, fun _ hmem => (hblock hmem).2⟩
  · unfold scriptBlocks
    rw [List.count_append, List.count_eq_zero.mpr doc.readerBlock_not_mem_ownBlocks]
    split
    · rw [List.count_singleton_self]
    · rfl
  · obtain ⟨c, cs, hcs, -⟩ := s.line_shape
    rw [hcs, List.getLast?_concat]

/-- A function without statements, a function with two, and a statement in which a textbox is read
deep inside. There are line feeds in a text and in the name of the textbox. -/
def order : Document where
  head := []
  components := []
  body := []
  functions :=
    [⟨"wait", [], []⟩,
     ⟨"greet", ["name", "title"],
       [.const "line" (.operation (.text "Dear\n") .add (.symbol "name")),
        .alert (.symbol "line")]⟩]
  statements :=
    [.alert (.operation (.text "Sum: ") .add
      (.operation (.number 2) .multiply (.textbox "count\n")))]
  styles := []

/-- The four blocks of the script. -/
theorem script_inBlocks_order :
    order.OneLineNames ∧ order.ReadsTextbox ∧ ∃ text, order.script = .ok text ∧
      InBlocks text
        [["function wait() \x7b", "\x7d"],
         ["function greet(name, title) \x7b", "    const line = \"Dear\\n\" + name;",
          "    alert(line);", "\x7d"],
         ["alert(\"Sum: \" + (2 * __simpleuiTextboxValue(\"count\\n\")));"],
         Script.readerBlock] := by
  have hnames : order.OneLineNames := ⟨by decide, by decide⟩
  obtain ⟨text, htext⟩ : ∃ text, order.script = .ok text := ⟨_, rfl⟩
  refine ⟨hnames, by decide, text, htext, ?_⟩
  refine (congrArg (InBlocks text) ?_).mp (script_inBlocks order hnames text htext).1
  decide +kernel

end Document

end Pagewright
