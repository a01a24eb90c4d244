import Pagewright.Layout
import Pagewright.Script.Fragment

/-!
# The script of a page

The functions of the document, then its statements, then the function that reads textboxes if any
of them does. An empty line stands between each two blocks.
-/

namespace Pagewright

namespace Script

/-- Writes a statement. -/
def statement : Statement → Writing String
  | .alert value => return "alert(" ++ (← expression value).code ++ ");"
  | .const name value => return "const " ++ name ++ " = " ++ (← expression value).code ++ ";"

/-- Writes statements, one a line. -/
def statements (body : List Statement) : Writing (List Layout) :=
  body.mapM fun s => return .text (← statement s)

/-- Writes a function. -/
def function (f : Function) : Writing Layout := do
  let params := ", ".intercalate f.params
  return .group s!"function {f.name}({params}) \x7b" (← statements f.body) "\x7d"

/-- The function that reads a textbox: its value as a number if it is one, else as text. -/
def textboxReader : Layout :=
  .group s!"function {textboxFunction}(id) \x7b"
    [.text "const el = document.getElementById(id);",
     .text "if (!el) return \"\";",
     .text "const raw = el.value;",
     .text "const n = Number(raw);",
     .text "return raw.trim() !== \"\" && !Number.isNaN(n) ? n : raw;"]
    "\x7d"

/-- The blocks of a script, and whether a textbox is read among them. -/
def blocks (doc : Document) : Writing (List (List Layout)) := do
  let functions ← doc.functions.mapM fun f => return [← function f]
  let top ← statements doc.statements
  return functions ++ if top.isEmpty then [] else [top]

end Script

/-- Writes the script. -/
def Document.script (doc : Document) : Except GenerationError String :=
  let (result, readsTextbox) := (ExceptT.run (Script.blocks doc)).run false
  result.map fun blocks =>
    Layout.render (Layout.spaced (blocks ++ if readsTextbox then [[Script.textboxReader]] else []))

end Pagewright
