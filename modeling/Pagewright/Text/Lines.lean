/-!
# The lines of a text

A line ends at a line feed, and a carriage return right before the line feed belongs to the line
end. The last line need not be ended, and a text that ends in a line feed has no empty line after
it; so the empty text has no lines at all.
-/

namespace Pagewright.Text

/-- The line without the carriage return it ends in. -/
def dropReturn (line : List Char) : List Char :=
  if line.getLast? = some '\r' then line.dropLast else line

/-- The lines of a text; `current` holds the characters of the unfinished line, last one first. -/
def linesFrom (current : List Char) : List Char → List (List Char)
  | [] => if current.isEmpty then [] else [current.reverse]
  | c :: rest =>
    if c = '\n' then dropReturn current.reverse :: linesFrom [] rest
    else linesFrom (c :: current) rest

/-- The lines of a text, without their ends. -/
def lines (s : String) : List String :=
  (linesFrom [] s.toList).map String.ofList

end Pagewright.Text
