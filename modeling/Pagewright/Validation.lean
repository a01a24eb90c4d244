import Pagewright.Validation.Definitions
import Pagewright.Validation.Script

/-!
# Checking a document

All checks of a document, in the order in which they are reported: definitions first, then the
markup of the head, the body and the components, then scripts and style rules.
-/

namespace Pagewright

/-- The diagnostics of a document. Classes are checked against the known ones, if these are
given. -/
def Document.diagnostics (doc : Document) (known : Option (List String)) : List Diagnostic :=
  doc.duplicateComponents ++ doc.duplicateFunctions ++ doc.selfUses ++ doc.headDiagnostics ++
    doc.bodyDiagnostics known ++ doc.componentDiagnostics known ++ doc.scriptDiagnostics ++
    doc.styleDiagnostics

/-- Some diagnostic is an error. -/
def hasErrors (diagnostics : List Diagnostic) : Bool :=
  diagnostics.any Diagnostic.isError

end Pagewright
