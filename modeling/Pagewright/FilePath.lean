import Pagewright.Text.Split

/-!
# File paths

A path is a text whose slashes divide it into pieces; a slash at the start makes it absolute. Pieces
that are empty, and a dot anywhere but at the start of a relative path, have no say in what a path
means. Taking the parent of a path cuts off its last piece that has one, and leaves everything
before it as it was written.
-/

namespace Pagewright

/-- A path in the file system, as it is written. -/
abbrev FilePath := String

namespace FilePath

/-- The path starts at the root. -/
def isAbsolute (path : FilePath) : Bool :=
  path.toList.head? = some '/'

/-- The pieces of a path between its slashes, without the slash at the start. -/
def pieces (path : FilePath) : List (List Char) :=
  Text.splitAt '/' (if path.isAbsolute then path.toList.tail else path.toList)

/-- Drops pieces without a say from a list of pieces in reverse order. A dot counts if nothing
stands before it. -/
def dropIdle (absolute : Bool) : List (List Char) → List (List Char)
  | [] => []
  | piece :: before =>
    if piece.isEmpty ∨ (piece = ['.'] ∧ (absolute ∨ ¬ before.isEmpty)) then dropIdle absolute before
    else piece :: before

/-- The path of pieces in reverse order. -/
def ofReversed (absolute : Bool) (reversed : List (List Char)) : FilePath :=
  let text := List.intercalate ['/'] reversed.reverse
  String.ofList (if absolute then '/' :: text else text)

/-- The pieces that have a say, the last one first. -/
def significant (path : FilePath) : List (List Char) :=
  dropIdle path.isAbsolute path.pieces.reverse

/-- The path without its last piece. The root and the empty path have no parent. -/
def parent? (path : FilePath) : Option FilePath :=
  match path.significant with
  | [] => none
  | _ :: before => some (ofReversed path.isAbsolute (dropIdle path.isAbsolute before))

/-- The name a path ends in, unless it ends in dots that point to a directory. -/
def fileName? (path : FilePath) : Option String :=
  match path.significant with
  | piece :: _ =>
    if piece = ['.'] ∨ piece = ['.', '.'] then none else some (String.ofList piece)
  | [] => none

/-- The second path as seen from the first. -/
def join (base path : FilePath) : FilePath :=
  if path.isAbsolute ∨ base.isEmpty then path
  else if base.toList.getLast? = some '/' then base ++ path
  else base ++ "/" ++ path

/-- The directory a file stands in; a dot for the present one. -/
def directory (path : FilePath) : FilePath :=
  match path.parent? with
  | some parent => if parent.isEmpty then "." else parent
  | none => "."

/-- The path and its parents, at most so many. -/
def ancestorsUpTo : Nat → FilePath → List FilePath
  | 0, _ => []
  | n + 1, path =>
    path ::
      match path.parent? with
      | some parent => ancestorsUpTo n parent
      | none => []

/-- The path, its parent, the parent of that, and so on. A parent is shorter than its path, so there
are no more of them than the path has characters. -/
def ancestors (path : FilePath) : List FilePath :=
  ancestorsUpTo (path.length + 1) path

end FilePath

end Pagewright
