import Pagewright.Generation.Page
import Pagewright.Stylesheet.Block

/-!
# The stylesheet of a page

It begins with a rule for the body of every page. Then come the rules of the document, the rules of
the classes in use, and what a topbar or a footer needs if there is one; an empty line stands
between each two of them.

Which classes are in use is known only after the markup, so a run that has not written any markup
writes the body first.
-/

namespace Pagewright

namespace Styles

open Stylesheet (ruleBlock)

/-- The rule of every page. -/
def reset : Layout :=
  ruleBlock "body" ["margin: 0", "font-family: Arial, Helvetica, sans-serif"]

/-- The height of a topbar, in pixels. -/
def topbarHeight : Nat := 56

/-- The rules of pages with a topbar. -/
def topbar : List Layout :=
  [ruleBlock "body" [s!"padding-top: {topbarHeight}px"],
   ruleBlock s!".{topbarClass}"
     ["position: fixed", "top: 0", "left: 0", "right: 0", s!"height: {topbarHeight}px",
      "display: flex", "align-items: center", "justify-content: space-between",
      "padding: 0 16px", "background-color: #333333", "color: #ffffff", "z-index: 100"],
   ruleBlock s!".{topbarClass} a" ["color: inherit", "text-decoration: none"],
   ruleBlock s!".{topbarHomeClass}" ["font-weight: bold", "font-size: 20px"],
   ruleBlock s!".{topbarClass} nav ul"
     ["display: flex", "gap: 16px", "list-style: none", "margin: 0", "padding: 0"]]

/-- The rules of pages with a footer. -/
def footer : List Layout :=
  [ruleBlock s!".{footerClass}"
     ["position: fixed", "bottom: 0", "left: 0", "right: 0", "padding: 8px 16px",
      "text-align: center", "background-color: #333333", "color: #ffffff"]]

/-- A rule of the document. Its values are evaluated outside all components. -/
def documentRule (rule : StyleRule) : Emission Layout := do
  let written ← rule.properties.mapM (Declaration.written .empty)
  return ruleBlock rule.target.selector (written.map fun (name, value) => s!"{name}: {value}")

/-- All rules, in order, given those of the document. -/
def sheet (documentRules : List Layout) (run : Run) : List Layout :=
  reset :: documentRules ++ run.rules.map .text ++
    (if run.topbar then topbar else []) ++ (if run.footer then footer else [])

end Styles

namespace Document

/-- The rules of the document that set anything. -/
def effectiveStyles (doc : Document) : List StyleRule :=
  doc.styles.filter (!·.properties.isEmpty)

/-- Writes the stylesheet, after the body if that is still to be done. -/
def emitStylesheet (doc : Document) (source : ClassSource) : Emission String := do
  unless (← get).markupDone do
    discard (doc.emitBody source)
  Emission.note (.stylesheetPass (← get).rules.length)
  let documentRules ← doc.effectiveStyles.mapM Styles.documentRule
  return Layout.render (Layout.spaced ((Styles.sheet documentRules (← get)).map ([·])))

end Document

end Pagewright
