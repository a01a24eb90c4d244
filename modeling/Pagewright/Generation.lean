import Pagewright.Generation.Styles
import Pagewright.Script.Program

/-!
# Generating the files of a page

Page, stylesheet and script come out of one run. Either all three are returned or none.
-/

namespace Pagewright

/-- The files of a page. -/
structure Artifacts where
  html : String
  css : String
  js : String
  deriving DecidableEq, Repr

namespace Document

/-- Writes the script in the course of a run. -/
def emitScript (doc : Document) : Emission String := do
  Emission.note (.scriptPass doc.functions.length doc.statements.length)
  match doc.script with
  | .ok text => return text
  | .error e => throw e

/-- Writes all three files. -/
def emit (doc : Document) (source : ClassSource) (options : PageOptions) :
    Emission Artifacts := do
  let html ← doc.emitPage source options
  let css ← doc.emitStylesheet source
  let js ← doc.emitScript
  Emission.note (.finished (← get).warnings.length)
  return ⟨html, css, js⟩

/-- The files of a document, and the run that made them or failed to. -/
def generate (doc : Document) (source : ClassSource) (options : PageOptions) :
    Except GenerationError Artifacts × Run :=
  (ExceptT.run (doc.emit source options)).run .fresh

end Document

end Pagewright
