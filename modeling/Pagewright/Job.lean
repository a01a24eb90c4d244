import Pagewright.Generation.Page
import Pagewright.Settings

/-!
# Jobs

A job is one page to generate: the document, the directory and the names of the files to write, and
the base stylesheet. What the command line says comes before what the settings say.
-/

namespace Pagewright

/-- One page to generate. -/
structure Job where
  input : FilePath
  destination : FilePath
  /-- The base stylesheet, if it is not the bundled one. -/
  baseCss : Option FilePath
  html : String
  stylesheet : String
  script : String
  deriving DecidableEq, Repr

namespace Job

/-- The directory beside the document that files go to if no other is named. -/
def standardDestination : String := "generated"

/-- The job for a document, from the command line and the settings. -/
def new (input : FilePath) (destination baseCss : Option FilePath) (settings : Settings) : Job where
  input
  destination :=
    (destination <|> settings.output.destination).getD
      (input.directory.join standardDestination)
  baseCss := baseCss <|> settings.baseCss
  html := settings.output.html
  stylesheet := settings.output.stylesheet
  script := settings.output.script

/-- The page refers to its other files by name. -/
def pageOptions (job : Job) : PageOptions :=
  ⟨job.stylesheet, job.script⟩

end Job

end Pagewright
