/-!
# String literals of the script

A string in the script stands between double quotes. The quote, the backslash and whatever would
end the line are escaped, and so is the less-than sign: a literal can then never close the script
element it may be placed in.
-/

namespace Pagewright.Script

/-- One character inside a string literal. -/
def literalChar (c : Char) : List Char :=
  if c = '"' then ['\\', '"']
  else if c = '\\' then ['\\', '\\']
  else if c = '\n' then ['\\', 'n']
  else if c = '\r' then ['\\', 'r']
  else if c = '\t' then ['\\', 't']
  else if c = '<' then "\\u003c".toList
  else if c = '\u2028' then "\\u2028".toList
  else if c = '\u2029' then "\\u2029".toList
  else [c]

/-- The text as a string literal. -/
def literal (s : String) : String :=
  String.ofList ('"' :: s.toList.flatMap literalChar ++ ['"'])

end Pagewright.Script
