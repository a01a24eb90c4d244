import Pagewright.Generation.Run

/-!
# Style values

The value of a style property is the text of its expression, but a bare number that stands for a
length is given in pixels. The same rule serves the `style` attribute of an element and the rules
of the document.
-/

namespace Pagewright

/-- The value of a property as it is written. -/
def Property.valueText (property : Property) (value : Value) : String :=
  match value with
  | .number _ => if property.takesPixels then value.display ++ "px" else value.display
  | .text _ => value.display

/-- A property with its written value. -/
abbrev WrittenDeclaration := String × String

/-- Evaluates a declaration. -/
def Declaration.written (stack : Stack) (d : Declaration) : Emission WrittenDeclaration :=
  return (d.property.cssName, d.property.valueText (← Emission.value stack d.value))

/-- The value of a `style` attribute. -/
def inlineStyle (stack : Stack) (css : List Declaration) : Emission String := do
  let written ← css.mapM (Declaration.written stack)
  return String.join (written.map fun (name, value) => s!"{name}:{value};")

end Pagewright
