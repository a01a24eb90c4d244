import Pagewright.Layout

/-!
# Writing rules of a stylesheet

A rule is written as its selector and an opening brace, one declaration a line, and the closing
brace on a line of its own. Blocks may nest, as they do below `@media`.
-/

namespace Pagewright.Stylesheet

/-- A block of a stylesheet to be written. -/
def block (selector : String) (body : List Layout) : Layout :=
  .group (selector ++ " \x7b") body "\x7d"

/-- A rule with the given declarations. -/
def ruleBlock (selector : String) (declarations : List String) : Layout :=
  block selector (declarations.map fun declaration => .text (declaration ++ ";"))

/-- The text of a block, its last line not ended. -/
def blockText (piece : Layout) : String :=
  "\n".intercalate piece.lines

end Pagewright.Stylesheet
