import Pagewright.Stylesheet.Rule

/-!
# Collecting the rules of the classes in use

A page carries the rules of the classes it uses and no others. While the markup is written, each
class it meets is looked up in the base stylesheet, and the rules found are kept in the order of
the first use. A class is looked up once, and a rule that belongs to several classes is kept once.
-/

namespace Pagewright

/-- The texts of the rules that belong to a class. -/
abbrev ClassSource := String → List String

/-- The base stylesheet as the place where classes are looked up. -/
def Stylesheet.source (sheet : Stylesheet) : ClassSource :=
  sheet.rulesFor

/-- The rules collected so far. -/
structure Collector where
  /-- The classes looked up. -/
  seen : List String
  /-- The texts of their rules, in the order of the first use. -/
  rules : List String
  deriving DecidableEq, Repr

namespace Collector

/-- Nothing has been looked up. -/
def empty : Collector := ⟨[], []⟩

/-- The rules that looking up a class would add. -/
def added (source : ClassSource) (collector : Collector) (name : String) : List String :=
  if name ∈ collector.seen then []
  else (source name).eraseDups.filter (· ∉ collector.rules)

/-- Looks up a class. -/
def resolve (source : ClassSource) (collector : Collector) (name : String) : Collector where
  seen := if name ∈ collector.seen then collector.seen else name :: collector.seen
  rules := collector.rules ++ collector.added source name

/-- Looking up the class for the first time finds nothing new. -/
def misses (source : ClassSource) (collector : Collector) (name : String) : Bool :=
  name ∉ collector.seen && (collector.added source name).isEmpty

/-- The text that looking up a class adds. -/
def addedText (source : ClassSource) (collector : Collector) (name : String) : String :=
  "\n".intercalate (collector.added source name)

end Collector

end Pagewright
