import Mathlib.Data.List.Forall2
import Pagewright.Proofs.Beginnings
import Pagewright.Proofs.Fidelity
import Pagewright.Proofs.Indentation
import Pagewright.Proofs.Stylesheet.Texts

/-!
# The stylesheet read again

A stylesheet is put together from rules of four kinds: some are fixed, some are written from the
values of the document, and some are taken from another stylesheet as they stand there, with all
their comments, strings and nested blocks. It goes out line by line. The statement here is that
nothing is lost on this way: the reader of stylesheets finds in it these rules and no others, in
the order in which they were put in.

Three things are needed. A text that is broken into lines is whole again once every line is ended,
unless there are carriage returns in it (`Layout.ended_lines`). Whatever is laid out in this way is
read as its rule before any rest (`Stylesheet.Shows`), and so are all the layouts one after the
other (`Stylesheet.reads_spaced`). And the rules a run has collected come from the stylesheet that
its classes are looked up in, after any history of passes (`Run.comesFrom_after`).
-/

namespace Pagewright

/-! ## Lines and their ends -/

namespace Text

theorem dropReturn_eq_self {line : List Char} (h : '\r' ∉ line) : dropReturn line = line :=
  if_neg fun hlast => h (List.mem_of_getLast? hlast)

/-- **Lines that are ended again** make up the text, if it has no carriage returns and its last
line is not ended. The characters of the unfinished line are kept in reverse. -/
theorem flatMap_linesFrom {current cs : List Char} (hcurrent : '\r' ∉ current) (hcs : '\r' ∉ cs)
    (hlast : ∃ c, (current.reverse ++ cs).getLast? = some c ∧ c ≠ '\n') :
    (linesFrom current cs).flatMap (· ++ ['\n']) = current.reverse ++ cs ++ ['\n'] := by
  induction cs generalizing current with
  | nil =>
    have hne : current ≠ [] := by
      rintro rfl
      simp at hlast
    rw [linesFrom, if_neg (by simpa using hne)]
    simp
  | cons c cs ih =>
    have hrest : '\r' ∉ cs := fun hmem => hcs (List.mem_cons_of_mem _ hmem)
    rw [linesFrom]
    split
    · next hc =>
      subst hc
      -- The last line is not ended, so there is something behind this line feed.
      have hnone : '\r' ∉ ([] : List Char) := List.not_mem_nil
      have hlast' : ∃ c, ([].reverse ++ cs).getLast? = some c ∧ c ≠ '\n' := by
        obtain ⟨last, hlast, hne⟩ := hlast
        refine ⟨last, ?_, hne⟩
        cases cs with
        | nil => simp [hne.symm] at hlast
        | cons d cs => simpa using hlast
      rw [List.flatMap_cons, ih hnone hrest hlast', dropReturn_eq_self (by simpa using hcurrent)]
      simp
    · have hcurrent' : '\r' ∉ c :: current :=
        List.not_mem_cons_of_ne_of_not_mem (fun h => hcs (h ▸ List.mem_cons_self)) hcurrent
      rw [ih hcurrent' hrest (by simpa using hlast)]
      simp

end Text

namespace Layout

/-- **A text broken into lines is whole again** once its lines are ended. -/
theorem ended_lines {s : String} (hreturn : '\r' ∉ s.toList)
    (hlast : ∃ c, s.toList.getLast? = some c ∧ c ≠ '\n') :
    ended (Text.lines s) = s ++ "\n" := by
  refine String.toList_inj.mp ?_
  have hlines := Text.flatMap_linesFrom List.not_mem_nil hreturn hlast
  unfold Text.lines
  rw [toList_ended, List.flatMap_map, String.toList_append]
  simpa using hlines

end Layout

/-! ## Rules as they are laid out -/

namespace Stylesheet

open Layout (ended render spaced)

/-- **The layout shows the rule**: on lines of its own, it is read as the rule whatever comes after
it. -/
def Shows (piece : Layout) (rule : Rule) : Prop :=
  Reads (ended piece.lines).toList [rule]

variable {base : Stylesheet} {rule : Rule} {selector : String} {declarations : List String}

theorem shows_of_ended {piece : Layout} (hlines : ended piece.lines = rule.text ++ "\n")
    (hrule : Reads rule.text.toList [rule]) : Shows piece rule := by
  unfold Shows
  rw [hlines, String.toList_append]
  exact hrule.append (Reads.blank (by decide))

/-- A rule of a stylesheet without carriage returns, as it stands there. -/
theorem shows_text {source : String} (hreturn : '\r' ∉ source.toList)
    (hparse : parse source = .ok base) (hrule : rule ∈ base.rules) :
    Shows (.text rule.text) rule := by
  obtain ⟨hreads, hpart, hend⟩ := reads_of_parse hparse hrule
  refine shows_of_ended (Layout.ended_lines (fun hmem => hreturn (hpart.subset hmem)) ?_) hreads
  rcases hend with hend | hend <;> exact ⟨_, hend, by decide⟩

/-- The text is one line, in which nothing has a meaning for where a rule ends. -/
def isLine (line : String) : Bool :=
  line.toList.all fun c => isInert c && c ≠ '\n'

theorem feed_not_mem_of_isLine {line : String} (h : isLine line = true) : '\n' ∉ line.toList := by
  intro hmem
  have hfeed := List.all_eq_true.mp h _ hmem
  cases hfeed

theorem all_isInert_of_isLine {line : String} (h : isLine line = true) :
    line.toList.all isInert = true := by
  refine List.all_eq_true.mpr fun c hc => ?_
  exact (Bool.and_eq_true _ _ ▸ List.all_eq_true.mp h c hc).1

/-- Declarations are written one a line, one level deeper than the rule. -/
theorem lines_declarations (h : ∀ d ∈ declarations, isLine d = true) :
    (Layout.linesOf (declarations.map fun d => .text (d ++ ";"))).map Layout.deeper
      = declarations.map fun d => Layout.indent ++ (d ++ ";") := by
  induction declarations with
  | nil => rfl
  | cons d ds ih =>
    have hfeed : '\n' ∉ (d ++ ";").toList := by
      simp [feed_not_mem_of_isLine (h d List.mem_cons_self)]
    have hline : Text.lines (d ++ ";") = [d ++ ";"] :=
      Html.Reader.lines_eq_singleton (by simp) hfeed
    have hdeeper : Layout.deeper (d ++ ";") = Layout.indent ++ (d ++ ";") := if_neg (by simp)
    rw [List.map_cons, Layout.linesOf, Layout.lines, hline, List.map_append, List.map_singleton,
      hdeeper, ih (fun other hother => h other (List.mem_cons_of_mem _ hother))]
    rfl

/-- The text of a rule that is written line by line. -/
theorem ended_ruleBlock (hselector : isLine selector = true)
    (hdeclarations : ∀ d ∈ declarations, isLine d = true) :
    ended (ruleBlock selector declarations).lines
      = (Rule.ofDeclarations selector declarations).text ++ "\n" := by
  have hopening : Text.lines (selector ++ " \x7b") = [selector ++ " \x7b"] :=
    Html.Reader.lines_eq_singleton (by simp) (by simp [feed_not_mem_of_isLine hselector])
  have hclosing : Text.lines "\x7d" = ["\x7d"] := rfl
  have hbody : (ended (declarations.map fun d => Layout.indent ++ (d ++ ";"))).toList
      = Rule.declarationLines declarations := by
    rw [Layout.toList_ended, List.flatMap_map]
    unfold Rule.declarationLines
    simp [Layout.indent]
  unfold ruleBlock block
  rw [Layout.lines, hopening, hclosing, lines_declarations hdeclarations]
  refine String.toList_inj.mp ?_
  rw [Layout.ended_append, Layout.ended_append, String.toList_append, String.toList_append, hbody,
    String.toList_append, toList_ofDeclarations]
  simp

/-- **A rule with these declarations**, as it is written. -/
theorem shows_ruleBlock (hselector : isSelector selector.toList = true)
    (hline : isLine selector = true) (hdeclarations : ∀ d ∈ declarations, isLine d = true) :
    Shows (ruleBlock selector declarations) (.ofDeclarations selector declarations) :=
  shows_of_ended (ended_ruleBlock hline hdeclarations)
    (reads_ofDeclarations hselector fun d hd => all_isInert_of_isLine (hdeclarations d hd))

/-- **Layouts are read as the rules they show**, with an empty line between each two of them. -/
theorem reads_spaced {pieces : List Layout} {rules : List Rule}
    (h : List.Forall₂ Shows pieces rules) :
    Reads (render (spaced (pieces.map ([·])))).toList rules := by
  induction h with
  | nil => exact Reads.nil
  | @cons piece rule pieces rules hpiece hrest ih =>
    cases hrest with
    | nil =>
      show Reads (ended (piece.lines ++ [])).toList [rule]
      rw [List.append_nil]
      exact hpiece
    | @cons next _ pieces _ _ _ =>
      show Reads (ended (piece.lines ++ "" :: Layout.linesOf (spaced _))).toList _
      rw [Layout.ended_append, Layout.ended_cons, String.toList_append, String.toList_append]
      -- The line feed of the empty line is a gap between two rules.
      exact hpiece.append ((Reads.blank (by decide)).append ih)

end Stylesheet

/-! ## The fixed rules -/

namespace Styles

open Stylesheet

/-- The rule of every page. -/
def resetRule : Rule :=
  .ofDeclarations "body" ["margin: 0", "font-family: Arial, Helvetica, sans-serif"]

/-- The selectors and the declarations of pages with a topbar. -/
def topbarDeclarations : List (String × List String) :=
  [("body", ["padding-top: 56px"]),
   (".topbar",
     ["position: fixed", "top: 0", "left: 0", "right: 0", "height: 56px", "display: flex",
      "align-items: center", "justify-content: space-between", "padding: 0 16px",
      "background-color: #333333", "color: #ffffff", "z-index: 100"]),
   (".topbar a", ["color: inherit", "text-decoration: none"]),
   (".topbar-home", ["font-weight: bold", "font-size: 20px"]),
   (".topbar nav ul",
     ["display: flex", "gap: 16px", "list-style: none", "margin: 0", "padding: 0"])]

/-- The rules of pages with a topbar. -/
def topbarRules : List Rule :=
  topbarDeclarations.map fun (selector, declarations) => .ofDeclarations selector declarations

/-- The rule of pages with a footer. -/
def footerRule : Rule :=
  .ofDeclarations ".footer"
    ["position: fixed", "bottom: 0", "left: 0", "right: 0", "padding: 8px 16px",
     "text-align: center", "background-color: #333333", "color: #ffffff"]

theorem shows_reset : Shows reset resetRule :=
  shows_ruleBlock (by decide +kernel) (by decide +kernel) (by decide +kernel)

theorem forall₂_shows_topbar : List.Forall₂ Shows topbar topbarRules := by
  have htopbar : topbar = topbarDeclarations.map fun (selector, declarations) =>
      ruleBlock selector declarations := rfl
  have hall : topbarDeclarations.all (fun (selector, declarations) =>
      isSelector selector.toList && isLine selector && declarations.all isLine) = true := by
    decide +kernel
  rw [htopbar, topbarRules, List.forall₂_map_left_iff, List.forall₂_map_right_iff,
    List.forall₂_same]
  rintro ⟨selector, declarations⟩ hmem
  have hrule := List.all_eq_true.mp hall _ hmem
  simp only [Bool.and_eq_true, List.all_eq_true] at hrule
  exact shows_ruleBlock hrule.1.1 hrule.1.2 hrule.2

theorem forall₂_shows_footer : List.Forall₂ Shows footer [footerRule] :=
  .cons (shows_ruleBlock (by decide +kernel) (by decide +kernel) (by decide +kernel)) .nil

end Styles

/-! ## The rules of the document -/

/-- **The value can stand in a rule as it is**: there is no brace, no quote, no slash and no line
feed in its text. -/
def Value.isHarmless (v : Value) : Bool :=
  v.display.toList.all fun c => c ∉ ['\x7b', '\x7d', '"', '\'', '/', '\n']

/-- The declaration as it is written in a rule of the document. -/
def Declaration.line? (d : Declaration) : Option String :=
  (d.style? .empty).map fun style => style.1 ++ ": " ++ style.2

/-- **The rule that a rule of the document stands for**, if all its values can be evaluated. -/
def StyleRule.rule? (rule : StyleRule) : Option Stylesheet.Rule :=
  (rule.properties.mapM Declaration.line?).map (.ofDeclarations rule.target.selector)

/-- All the values of the rule can stand in it as they are. -/
def StyleRule.isHarmless (rule : StyleRule) : Bool :=
  rule.properties.all fun d => (d.value.value? .empty).all Value.isHarmless

namespace Stylesheet

open Emission

theorem isLine_append {line more : String} (h : isLine line = true) (h' : isLine more = true) :
    isLine (line ++ more) = true := by
  unfold isLine at *
  rw [String.toList_append, List.all_append, h, h']
  rfl

theorem isLine_of_isHarmless {v : Value} (h : v.isHarmless = true) : isLine v.display = true := by
  refine List.all_eq_true.mpr fun c hc => ?_
  have hnot := of_decide_eq_true (List.all_eq_true.mp h c hc)
  simp only [List.mem_cons, List.not_mem_nil, or_false, not_or] at hnot
  simp [isInert, isQuote, hnot]

/-- A value stands in a style as it is shown, if not as a number of pixels. -/
theorem styleText_eq_or (property : Property) (v : Value) :
    property.styleText v = v.display ∨ property.styleText v = v.display ++ "px" := by
  cases v with
  | text s => exact .inl rfl
  | number x =>
    by_cases hlength : property ∈ Property.lengths
    · exact .inr (if_pos hlength)
    · exact .inl (if_neg hlength)

/-- A declaration with such a value is written on one line. -/
theorem isLine_of_line? {d : Declaration} {line : String} (h : d.line? = some line)
    (hharmless : (d.value.value? .empty).all Value.isHarmless = true) : isLine line = true := by
  obtain ⟨style, hstyle, rfl⟩ := Option.map_eq_some_iff.mp h
  obtain ⟨v, hv, rfl⟩ := Option.map_eq_some_iff.mp hstyle
  rw [hv] at hharmless
  have hdisplay := isLine_of_isHarmless hharmless
  have hname : isLine d.property.styleName = true := by
    cases d.property <;> decide
  refine isLine_append (isLine_append hname (by decide)) ?_
  obtain htext | htext := styleText_eq_or d.property v
  · exact htext.symm ▸ hdisplay
  · exact htext.symm ▸ isLine_append hdisplay (by decide)

/-- A rule of the document is laid out as the rule that it stands for. -/
theorem documentRule_yields {rule : StyleRule} (hharmless : rule.isHarmless = true) :
    (Styles.documentRule rule).Yields (fun piece => ∃ r, rule.rule? = some r ∧ Shows piece r) := by
  have hwritten : ∀ d : Declaration,
      (d.written .empty).Yields (fun w => d.line? = some (w.1 ++ ": " ++ w.2)) := by
    intro d
    refine (Markup.written_yields .empty d).imp fun w _ hw => ?_
    unfold Declaration.line?
    rw [hw]
    rfl
  refine (Yields.mapM hwritten rule.properties).bind (fun written hlines => Yields.pure ?_)
  refine ⟨.ofDeclarations rule.target.selector _, ?_, shows_ruleBlock ?_ ?_ fun line hline => ?_⟩
  · unfold StyleRule.rule?
    rw [hlines]
    rfl
  · cases rule.target <;> decide
  · cases rule.target <;> decide
  · obtain ⟨d, hd, hd'⟩ := exists_of_mem_mapM hlines hline
    exact isLine_of_line? hd' (List.all_eq_true.mp hharmless d hd)

end Stylesheet

/-- A list is gone through as a pure function would go through it, with each value that is yielded
related to that of the function. -/
theorem Emission.Yields.mapM_forall₂ {α β γ : Type} {f : α → Emission β} {g : α → Option γ}
    {R : β → γ → Prop} {xs : List α}
    (h : ∀ x ∈ xs, (f x).Yields (fun y => ∃ z, g x = some z ∧ R y z)) :
    (xs.mapM f).Yields (fun ys => ∃ zs, xs.mapM g = some zs ∧ List.Forall₂ R ys zs) := by
  induction xs with
  | nil => exact Yields.pure ⟨[], rfl, .nil⟩
  | cons x xs ih =>
    have hrest := ih (fun other hother => h other (List.mem_cons_of_mem _ hother))
    rw [List.mapM_cons]
    refine (h x List.mem_cons_self).bind (fun y ⟨z, hz, hy⟩ => ?_)
    refine hrest.bind (fun ys ⟨zs, hzs, hys⟩ => Yields.pure ⟨z :: zs, ?_, .cons hy hys⟩)
    rw [List.mapM_cons, hz, hzs]
    rfl

/-! ## The rules of a run -/

/-- **The rules of the run come from this stylesheet.** -/
def Run.ComesFrom (base : Stylesheet) (run : Run) : Prop :=
  ∀ text ∈ run.rules, ∃ rule ∈ base.rules, rule.text = text

namespace Run

variable {base : Stylesheet} {run : Run}

theorem ComesFrom.apply (h : run.ComesFrom base) (effect : Effect) :
    (run.apply base.source effect).ComesFrom base := by
  cases effect with
  | lookup name =>
    intro text htext
    rcases List.mem_append.mp htext with htext | htext
    · exact h text htext
    · unfold Collector.added at htext
      split at htext
      · cases htext
      · have hfound := List.mem_eraseDups.mp (List.mem_filter.mp htext).1
        obtain ⟨rule, hrule, rfl⟩ := List.mem_map.mp hfound
        exact ⟨rule, (List.mem_filter.mp hrule).1, rfl⟩
  | note | topbar | footer | done => exact h

theorem comesFrom_after (base : Stylesheet) (history : List Pass) :
    (fresh.after base.source history).ComesFrom base := by
  have hafter : ∀ run : Run, run.ComesFrom base →
      (run.after base.source history).ComesFrom base := by
    induction history with
    | nil => exact fun _ h => h
    | cons pass history ih =>
      intro run hrun
      have hkeeps : (pass.emission base.source).Keeps (ComesFrom base) (fun _ => ComesFrom base) :=
        pass.keeps (fun _ effect hrun => hrun.apply effect)
      exact ih _ (hkeeps.holds hrun)
  exact hafter fresh (fun _ htext => nomatch htext)

/-- The rules that the run has collected, with their selectors. -/
theorem ComesFrom.exists_rules (h : run.ComesFrom base) :
    ∃ collected : List Stylesheet.Rule,
      collected.map (·.text) = run.rules ∧ ∀ rule ∈ collected, rule ∈ base.rules := by
  unfold ComesFrom at h
  generalize run.rules = texts at h ⊢
  induction texts with
  | nil => exact ⟨[], rfl, fun _ hmem => nomatch hmem⟩
  | cons text texts ih =>
    obtain ⟨rule, hrule, rfl⟩ := h text List.mem_cons_self
    obtain ⟨collected, rfl, hcollected⟩ := ih (fun other hother => h other (.tail _ hother))
    exact ⟨rule :: collected, rfl, List.forall_mem_cons.mpr ⟨hrule, hcollected⟩⟩

end Run

/-! ## The stylesheet -/

namespace Element

theorem mark?_eq_topbar_iff {e : Element} : e.mark? = some .topbar ↔ e.kind = "Topbar" := by
  cases e <;> simp [mark?, kind]

theorem mark?_eq_footer_iff {e : Element} : e.mark? = some .footer ↔ e.kind = "Footer" := by
  cases e <;> simp [mark?, kind]

end Element

namespace Document

open Emission Stylesheet

variable {doc : Document} {base : Stylesheet} {run : Run}

/-- A stylesheet is put together from the rules of the document and the findings of the run that it
leaves behind. -/
theorem exists_of_emitStylesheet {source : ClassSource} {run' : Run} {css : String}
    (h : (doc.emitStylesheet source).on run = (.ok css, run')) :
    ∃ pieces, doc.styleRules = .ok pieces ∧ css = sheetText pieces run'.silenced := by
  have hbetween : ∃ between, doc.emitRules.on between = (.ok css, run') := by
    rw [on_emitStylesheet] at h
    split at h
    · exact ⟨run, h⟩
    · obtain ⟨-, later, -, h⟩ := exists_of_on_bind h
      exact ⟨later, h⟩
  obtain ⟨between, hbetween⟩ := hbetween
  have hresult := doc.result_emitRules between
  have hsilenced := doc.emitRules_quiet.silenced_on between
  rw [hbetween] at hresult hsilenced
  cases hrules : doc.styleRules with
  | error e =>
    rw [hrules] at hresult
    cases hresult
  | ok pieces =>
    rw [hrules] at hresult
    refine ⟨pieces, rfl, ?_⟩
    rw [hsilenced]
    exact Except.ok.inj hresult

/-- The rules of the document are laid out as the rules that they stand for. -/
theorem exists_of_styleRules (hharmless : ∀ rule ∈ doc.styles, rule.isHarmless = true)
    {pieces : List Layout} (h : doc.styleRules = .ok pieces) :
    ∃ styles, doc.effectiveStyles.mapM StyleRule.rule? = some styles ∧
      List.Forall₂ Shows pieces styles := by
  have hrules : (doc.effectiveStyles.mapM Styles.documentRule).Yields _ :=
    Yields.mapM_forall₂ fun rule hrule =>
      documentRule_yields (hharmless rule (List.mem_filter.mp hrule).1)
  exact hrules.of_ok True.intro (Prod.ext h rfl)

/-- **The stylesheet is read as its rules**, given what its parts show. -/
theorem parse_sheetText {pieces : List Layout} {styles collected : List Rule}
    (hpieces : List.Forall₂ Shows pieces styles) (htexts : collected.map (·.text) = run.rules)
    (hcollected : ∀ rule ∈ collected, Shows (.text rule.text) rule) :
    parse (sheetText pieces run) = .ok
      ⟨Styles.resetRule :: styles ++ collected ++ (if run.topbar then Styles.topbarRules else []) ++
        (if run.footer then [Styles.footerRule] else [])⟩ := by
  have hrules : List.Forall₂ Shows (run.rules.map .text) collected := by
    rw [← htexts, List.map_map, List.forall₂_map_left_iff, List.forall₂_same]
    exact hcollected
  have htopbar : List.Forall₂ Shows (if run.topbar then Styles.topbar else [])
      (if run.topbar then Styles.topbarRules else []) := by
    split
    · exact Styles.forall₂_shows_topbar
    · exact .nil
  have hfooter : List.Forall₂ Shows (if run.footer then Styles.footer else [])
      (if run.footer then [Styles.footerRule] else []) := by
    split
    · exact Styles.forall₂_shows_footer
    · exact .nil
  refine (reads_spaced ?_).parse
  exact List.rel_append (List.rel_append (List.rel_append (.cons Styles.shows_reset hpieces) hrules)
    htopbar) hfooter

/-- **Nothing of a stylesheet is lost when it is written.** Take any stylesheet that is written, to
its end, after any history of passes over whatever documents, with its classes looked up in a
stylesheet that has no carriage returns. If all values in the rules of the document are harmless, it
is read as these rules and no others, in this order: the rule of every page; those of the document
that set anything; those the run has collected, which are rules of the other stylesheet word for
word; those of a topbar, if and only if a topbar has begun to be written, in any of the documents,
in a component or in a pass that failed; and the rule of a footer, if and only if a footer has. -/
theorem parse_emitStylesheet (doc : Document) (source : String) (base : Stylesheet)
    (history : List Pass) (css : String) (run : Run) (hreturn : '\r' ∉ source.toList)
    (hbase : parse source = .ok base)
    (h : (doc.emitStylesheet base.source).on (Run.fresh.after base.source history) = (.ok css, run))
    (hharmless : ∀ rule ∈ doc.styles, rule.isHarmless = true) :
    ∃ styles collected,
      doc.effectiveStyles.mapM StyleRule.rule? = some styles ∧
      collected.map (·.text) = run.rules ∧ (∀ rule ∈ collected, rule ∈ base.rules) ∧
      parse css = .ok
        ⟨Styles.resetRule :: styles ++ collected ++
          (if run.topbar then Styles.topbarRules else []) ++
          (if run.footer then [Styles.footerRule] else [])⟩ ∧
      (run.topbar = true ↔ ∃ e, Run.fresh.Begins base.source (history ++ [.stylesheet doc]) e ∧
        e.kind = "Topbar") ∧
      (run.footer = true ↔ ∃ e, Run.fresh.Begins base.source (history ++ [.stylesheet doc]) e ∧
        e.kind = "Footer") := by
  -- The stylesheet is itself a pass, so that its run is the one after a longer history.
  have hrun : run = Run.fresh.after base.source (history ++ [.stylesheet doc]) := by
    unfold Run.after
    rw [List.foldl_append]
    exact (congrArg Prod.snd h).symm
  obtain ⟨pieces, hpieces, rfl⟩ := exists_of_emitStylesheet h
  obtain ⟨styles, hstyles, hshown⟩ := exists_of_styleRules hharmless hpieces
  have hcomes : run.ComesFrom base := hrun ▸ Run.comesFrom_after base _
  obtain ⟨collected, htexts, hcollected⟩ := hcomes.exists_rules
  refine ⟨styles, collected, hstyles, htexts, hcollected, ?_, ?_, ?_⟩
  · exact parse_sheetText hshown htexts
      (fun rule hrule => shows_text hreturn hbase (hcollected rule hrule))
  · have hknows := Run.knows_after (.inl rfl) base.source .fresh (history ++ [.stylesheet doc])
    rw [← hrun] at hknows
    simpa [Run.Knows, Run.fresh, Element.mark?_eq_topbar_iff] using hknows
  · have hknows := Run.knows_after (.inr rfl) base.source .fresh (history ++ [.stylesheet doc])
    rw [← hrun] at hknows
    simpa [Run.Knows, Run.fresh, Element.mark?_eq_footer_iff] using hknows

end Document

/-- A stylesheet with a brace in a string and another one in a comment, an empty line inside a rule
and a rule inside a block. -/
def Stylesheet.printText : String :=
  "/* Cards. */\n.card \x7b\n  content: \"\x7d\";\n\n  /* \x7d */\n\x7d\n" ++
    "@media print \x7b .card \x7b color: black \x7d \x7d .note, .card > p \x7b\x7d"

/-- The rules of that stylesheet. -/
def Stylesheet.print : Stylesheet :=
  ⟨[⟨".card", ".card \x7b\n  content: \"\x7d\";\n\n  /* \x7d */\n\x7d"⟩,
    ⟨"@media print", "@media print \x7b .card \x7b color: black \x7d \x7d"⟩,
    ⟨".note, .card > p", ".note, .card > p \x7b\x7d"⟩]⟩

/-- A topbar in a component, and three rules, the second of which sets nothing. -/
def Document.banner : Document where
  head := []
  components := [⟨"Bar", [], [.topbar .none (.text "Shelf") none [] false]⟩]
  body := [.useComponent "Bar" [], .paragraph ⟨none, ["note"], []⟩ (.text "Closed")]
  functions := []
  statements := []
  styles :=
    [⟨.text, [⟨.color, .text "navy"⟩, ⟨.fontSize, .operation (.text "1") .add (.text "em")⟩]⟩,
     ⟨.objects, []⟩,
     ⟨.objects, [⟨.width, .text "50%"⟩]⟩]

/-- The footer is that of another document, whose body could not be written to its end. -/
theorem Document.parse_emitStylesheet_banner :
    '\r' ∉ Stylesheet.printText.toList ∧
      Stylesheet.parse Stylesheet.printText = .ok .print ∧
      (∀ rule ∈ banner.styles, rule.isHarmless = true) ∧
      ∃ css run,
        (banner.emitStylesheet Stylesheet.print.source).on
            (Run.fresh.after Stylesheet.print.source [.body .halfway]) = (.ok css, run) ∧
          run.topbar = true ∧ run.footer = true ∧ run.rules.length = 2 ∧
          ∃ collected, collected.map (·.text) = run.rules ∧
            (∀ rule ∈ collected, rule ∈ Stylesheet.print.rules) ∧
            Stylesheet.parse css = .ok
              ⟨Styles.resetRule ::
                [.ofDeclarations "p, h1, h2, h3, h4, h5, h6, a, label"
                  ["color: navy", "font-size: 1em"],
                 .ofDeclarations "div, section, button, img, input" ["width: 50%"]] ++
                collected ++ Styles.topbarRules ++ [Styles.footerRule]⟩ := by
  have hreturn : '\r' ∉ Stylesheet.printText.toList := by decide +kernel
  have hbase : Stylesheet.parse Stylesheet.printText = .ok .print := rfl
  have hharmless : ∀ rule ∈ banner.styles, rule.isHarmless = true := by decide +kernel
  refine ⟨hreturn, hbase, hharmless, _, _, rfl, by decide +kernel, by decide +kernel,
    by decide +kernel, ?_⟩
  obtain ⟨styles, collected, hstyles, htexts, hcollected, hparse, -⟩ :=
    parse_emitStylesheet banner _ .print [.body .halfway] _ _ hreturn hbase rfl hharmless
  refine ⟨collected, htexts, hcollected, ?_⟩
  cases hstyles
  exact hparse

end Pagewright
