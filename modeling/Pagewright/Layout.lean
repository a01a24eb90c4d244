import Pagewright.Text.Lines

/-!
# Indented text

The three files of a page are laid out alike: lines, blank lines, and groups whose body stands one
level deeper than the lines that open and close them. A layout is described first and turned into
lines in one place. Indentation is a property of the group alone, since a layout that moves one
level deeper has the same lines as before, each with one more indent; a line that is empty stays
empty.
-/

namespace Pagewright

/-- A piece of indented text. -/
inductive Layout where
  /-- Text, all lines of which stand at the present level. -/
  | text (content : String)
  /-- An empty line. -/
  | blank
  /-- A body one level deeper than the texts around it. -/
  | group (opening : String) (body : List Layout) (closing : String)
  deriving Repr, Inhabited

namespace Layout

/-- What one level adds in front of a line. -/
def indent : String := "    "

/-- The line one level deeper. -/
def deeper (line : String) : String :=
  if line.isEmpty then line else indent ++ line

mutual

/-- The lines of a layout. -/
def lines : Layout → List String
  | text content => Text.lines content
  | blank => [""]
  | group opening body closing =>
    Text.lines opening ++ (linesOf body).map deeper ++ Text.lines closing

/-- The lines of layouts that follow each other. -/
def linesOf : List Layout → List String
  | [] => []
  | piece :: rest => lines piece ++ linesOf rest

end

/-- The text of layouts that follow each other; every line is ended. -/
def render (pieces : List Layout) : String :=
  String.join ((linesOf pieces).map (· ++ "\n"))

/-- Layouts with an empty line between each two of them. -/
def spaced : List (List Layout) → List Layout
  | [] => []
  | [pieces] => pieces
  | pieces :: rest => pieces ++ blank :: spaced rest

end Layout

end Pagewright
