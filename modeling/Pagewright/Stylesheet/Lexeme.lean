/-!
# Lexemes of a stylesheet

To find where a rule of a stylesheet ends, braces and semicolons have to be told from those inside
comments and strings. So the source is first cut into lexemes: comments, strings, and all other
characters one by one. Nothing is dropped, and the lexemes put together are the source.

A comment runs to the first `*/`, or to the end of the source when there is none. A string runs to
the next quote of its own kind; a backslash takes away the meaning of the character after it,
whatever that is. A string that meets the end of its line or of the source is left unterminated,
and since nothing after it can be told apart any more, it takes the rest of the source with it.
-/

namespace Pagewright.Stylesheet

/-- A piece of a stylesheet. -/
inductive Lexeme where
  /-- A character with the meaning it has outside strings and comments. -/
  | plain (c : Char)
  | comment (text : List Char)
  /-- A string with its quotes. -/
  | quoted (text : List Char)
  /-- A string without its closing quote, and all that follows it. -/
  | unterminated (text : List Char)
  deriving DecidableEq, Repr

/-- The source text of a lexeme. -/
def Lexeme.text : Lexeme → List Char
  | plain c => [c]
  | comment text => text
  | quoted text => text
  | unterminated text => text

/-- Where in the source a character stands. The text of a comment or string so far is kept
reversed. -/
inductive Mode where
  | plain
  | comment (seen : List Char)
  | quoted (quote : Char) (seen : List Char)
  deriving DecidableEq, Repr

/-- The lexemes of a source from a given mode on. -/
def lexemesFrom : Mode → List Char → List Lexeme
  | .plain, [] => []
  | .plain, '/' :: '*' :: rest => lexemesFrom (.comment ['*', '/']) rest
  | .plain, c :: rest =>
    if c = '"' ∨ c = '\'' then lexemesFrom (.quoted c [c]) rest
    else .plain c :: lexemesFrom .plain rest
  | .comment seen, [] => [.comment seen.reverse]
  | .comment seen, '*' :: '/' :: rest =>
    .comment ('/' :: '*' :: seen).reverse :: lexemesFrom .plain rest
  | .comment seen, c :: rest => lexemesFrom (.comment (c :: seen)) rest
  | .quoted _ seen, [] => [.unterminated seen.reverse]
  | .quoted quote seen, '\\' :: c :: rest => lexemesFrom (.quoted quote (c :: '\\' :: seen)) rest
  | .quoted quote seen, c :: rest =>
    if c = '\n' then [.unterminated (seen.reverse ++ c :: rest)]
    else if c = quote then .quoted (c :: seen).reverse :: lexemesFrom .plain rest
    else lexemesFrom (.quoted quote (c :: seen)) rest

/-- The lexemes of a source. -/
def lexemes (source : List Char) : List Lexeme :=
  lexemesFrom .plain source

end Pagewright.Stylesheet
