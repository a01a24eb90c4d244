import Pagewright.Html.Escape
import Pagewright.Layout

/-!
# Element trees

The markup of a page is built as a tree and becomes text in one place, so every tag that is opened
is closed and every text and attribute value is escaped. An element is written on one line or as a
block, its children on lines of their own between the tags; which of the two is decided where the
element is made.
-/

namespace Pagewright

namespace Html

/-- An attribute of a tag, its value as meant and not yet escaped. -/
structure Attribute where
  name : String
  value : String
  deriving DecidableEq, Repr

end Html

/-- A node of the markup. -/
inductive Html where
  | text (content : String)
  /-- A tag that has no content and is not closed. -/
  | void (tag : String) (attrs : List Html.Attribute)
  /-- An element on one line. -/
  | inline (tag : String) (attrs : List Html.Attribute) (children : List Html)
  /-- An element whose tags stand on lines of their own. -/
  | block (tag : String) (attrs : List Html.Attribute) (children : List Html)
  deriving Repr, Inhabited

namespace Html

/-- The text of an attribute, with the blank in front of it. -/
def Attribute.written (a : Attribute) : String :=
  s!" {a.name}=\"{escapeAttribute a.value}\""

/-- The opening tag. -/
def openTag (tag : String) (attrs : List Attribute) : String :=
  "<" ++ tag ++ String.join (attrs.map Attribute.written) ++ ">"

/-- The closing tag. -/
def closeTag (tag : String) : String :=
  "</" ++ tag ++ ">"

mutual

/-- The node on one line. -/
def written : Html → String
  | text content => escapeText content
  | void tag attrs => openTag tag attrs
  | inline tag attrs children => openTag tag attrs ++ writtenAll children ++ closeTag tag
  | block tag attrs children => openTag tag attrs ++ writtenAll children ++ closeTag tag

/-- Nodes that follow each other on one line. -/
def writtenAll : List Html → String
  | [] => ""
  | node :: rest => written node ++ writtenAll rest

end

mutual

/-- The node as indented text. -/
def layout : Html → Layout
  | block tag attrs children => .group (openTag tag attrs) (layoutAll children) (closeTag tag)
  | node => .text node.written

/-- Nodes each on lines of their own. -/
def layoutAll : List Html → List Layout
  | [] => []
  | node :: rest => layout node :: layoutAll rest

end

/-- The text of nodes that follow each other. -/
def render (nodes : List Html) : String :=
  Layout.render (layoutAll nodes)

end Html

end Pagewright
