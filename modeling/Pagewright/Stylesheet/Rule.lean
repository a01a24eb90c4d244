import Pagewright.Text.Alphanumeric
import Pagewright.Text.Blank
import Pagewright.Text.Split

/-!
# Rules of a stylesheet

A stylesheet is taken apart no further than into its top level rules, which are kept word for word.
A rule belongs to a class when one of its selectors begins with that class: `.card`, `.card:hover`
and `.card > p` belong to `card`, while `.cards` and `div.card` do not. Rules that start with `@`
belong to no class, whatever stands inside them.
-/

namespace Pagewright

namespace Stylesheet

/-- A top level rule. -/
structure Rule where
  /-- What stands before the block, or before the semicolon of a rule without one. -/
  selector : String
  /-- The whole rule. -/
  text : String
  deriving DecidableEq, Repr

/-- The character can stand in the name of a class. -/
def isNameChar (c : Char) : Bool :=
  Text.isAlphanumeric c || c = '-' || c = '_'

/-- The class a selector begins with. -/
def leadingClass? : List Char → Option (List Char)
  | '.' :: rest =>
    match rest.takeWhile isNameChar with
    | [] => none
    | name => some name
  | _ => none

/-- The selector begins with this class and the name ends there. -/
def beginsWith (name : List Char) : List Char → Bool
  | '.' :: rest => name.isPrefixOf rest && !(rest.drop name.length).head?.any isNameChar
  | _ => false

namespace Rule

/-- The rule is a directive such as `@media` or `@import`. -/
def isDirective (rule : Rule) : Bool :=
  rule.selector.toList.head? = some '@'

/-- The selectors of the list a rule starts with. -/
def selectors (rule : Rule) : List (List Char) :=
  if rule.isDirective then [] else (Text.splitAt ',' rule.selector.toList).map Text.trim

/-- The classes that selectors of the rule begin with, in order. -/
def leadingClasses (rule : Rule) : List String :=
  (rule.selectors.filterMap leadingClass?).map String.ofList

/-- The rule belongs to this class. -/
def definesClass (rule : Rule) (name : String) : Bool :=
  !name.isEmpty && rule.selectors.any (beginsWith name.toList)

end Rule

end Stylesheet

/-- A stylesheet as the list of its top level rules. -/
structure Stylesheet where
  rules : List Stylesheet.Rule
  deriving DecidableEq, Repr

namespace Stylesheet

/-- The classes of a stylesheet, each where it first leads a selector. -/
def classNames (sheet : Stylesheet) : List String :=
  (sheet.rules.flatMap Rule.leadingClasses).eraseDups

/-- Some rule belongs to this class. -/
def hasClass (sheet : Stylesheet) (name : String) : Bool :=
  sheet.rules.any (·.definesClass name)

/-- The texts of the rules that belong to a class, in order. -/
def rulesFor (sheet : Stylesheet) (name : String) : List String :=
  (sheet.rules.filter (·.definesClass name)).map (·.text)

/-! ## Completions -/

/-- What an editor offers to insert. -/
structure Completion where
  label : String
  /-- What kind of thing the label names. -/
  detail : String
  deriving DecidableEq, Repr

/-- The classes of a stylesheet as completions. -/
def completions (sheet : Stylesheet) : List Completion :=
  sheet.classNames.map (⟨·, "CSS Class"⟩)

end Stylesheet

end Pagewright
