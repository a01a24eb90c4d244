import Pagewright.Generation.Markup

/-!
# The page

The head and the body of a document can be written by themselves or together as a complete page.
The page names the files of its stylesheet and its script.
-/

namespace Pagewright

/-- The files a page refers to. -/
structure PageOptions where
  stylesheet : String := "stylesheet.css"
  script : String := "script.js"
  deriving DecidableEq, Repr

namespace Page

/-- The complete page around the nodes of head and body. -/
def shell (options : PageOptions) (head body : List Html) : List Layout :=
  .text "<!DOCTYPE html>" ::
    Html.layoutAll
      [.block "html" []
        [.block "head" []
          (.void "meta" [⟨"charset", "utf-8"⟩] :: head ++
            [.void "link" [⟨"rel", "stylesheet"⟩, ⟨"href", options.stylesheet⟩],
             .inline "script" [⟨"src", options.script⟩] []]),
         .block "body" [] body]]

end Page

namespace Document

/-- Writes what the head holds. -/
def emitHead (doc : Document) (source : ClassSource) : Emission String :=
  return Html.render (← doc.markup source doc.head)

/-- Writes what the body holds. -/
def emitBody (doc : Document) (source : ClassSource) : Emission String := do
  let body ← doc.markup source doc.body
  modify ({ · with markupDone := true })
  return Html.render body

/-- Writes the complete page. -/
def emitPage (doc : Document) (source : ClassSource) (options : PageOptions) :
    Emission String := do
  Emission.note (.markupPass doc.head.length doc.body.length)
  let head ← doc.markup source doc.head
  let body ← doc.markup source doc.body
  modify ({ · with markupDone := true })
  return Layout.render (Page.shell options head body)

end Document

end Pagewright
