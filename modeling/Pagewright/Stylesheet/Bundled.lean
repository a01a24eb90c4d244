import Pagewright.Stylesheet.Block
import Pagewright.Stylesheet.Rule

/-!
# The bundled stylesheet

The base stylesheet of pages that do not bring their own: a small library of classes for boxes,
text, buttons and spacing.
-/

namespace Pagewright.Stylesheet

/-- A rule as it is written, with its text. -/
private def written (selector : String) (piece : Layout) : Rule :=
  ⟨selector, blockText piece⟩

/-- A rule of declarations. -/
private def simple (selector : String) (declarations : List String) : Rule :=
  written selector (ruleBlock selector declarations)

/-- The stylesheet that is used when no other is named. -/
def bundled : Stylesheet := ⟨
  [simple ".container" ["max-width: 960px", "margin: 0 auto", "padding: 0 16px"],
   simple ".card"
      ["padding: 16px", "border-radius: 8px", "background-color: #ffffff",
       "box-shadow: 0 1px 3px rgba(0, 0, 0, 0.2)"],
   simple ".card:hover" ["box-shadow: 0 4px 8px rgba(0, 0, 0, 0.2)"],
   simple ".center" ["text-align: center"],
   simple ".row" ["display: flex", "flex-direction: row", "gap: 8px"],
   simple ".column" ["display: flex", "flex-direction: column", "gap: 8px"],
   simple ".hidden" ["display: none"],
   simple ".muted" ["color: #6c757d"],
   simple ".bold" ["font-weight: bold"],
   simple ".italic" ["font-style: italic"],
   simple ".rounded" ["border-radius: 8px"],
   simple ".shadow" ["box-shadow: 0 2px 6px rgba(0, 0, 0, 0.25)"],
   simple ".btn" ["padding: 8px 16px", "border: none", "border-radius: 4px", "cursor: pointer"],
   simple ".btn-primary"
      ["padding: 8px 16px", "border: none", "border-radius: 4px", "color: #ffffff",
       "background-color: #0d6efd", "cursor: pointer"],
   simple ".btn-primary:hover" ["background-color: #0b5ed7"],
   simple ".btn-secondary"
      ["padding: 8px 16px", "border: none", "border-radius: 4px", "color: #ffffff",
       "background-color: #6c757d", "cursor: pointer"],
   simple ".btn-danger"
      ["padding: 8px 16px", "border: none", "border-radius: 4px", "color: #ffffff",
       "background-color: #dc3545", "cursor: pointer"],
   simple ".input" ["padding: 6px 8px", "border: 1px solid #ced4da", "border-radius: 4px"],
   simple ".input:focus" ["outline: none", "border-color: #0d6efd"],
   simple ".image-responsive" ["max-width: 100%", "height: auto"],
   simple ".text-small" ["font-size: 12px"],
   simple ".text-large" ["font-size: 24px"],
   simple ".margin-top" ["margin-top: 16px"],
   simple ".margin-bottom" ["margin-bottom: 16px"],
   simple ".padding" ["padding: 16px"],
   written "@media (max-width: 600px)"
     (block "@media (max-width: 600px)" [ruleBlock ".row" ["flex-direction: column"]])]⟩

end Pagewright.Stylesheet
