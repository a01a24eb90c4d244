import Pagewright.Proofs.Effects
import Pagewright.Proofs.Html.RoundTrip

/-!
# The page around its head and its body

The text of a page is not put together from the text of its head and the text of its body. Both are
laid out anew inside the page, two levels deeper than they stand by themselves. That this is the
same as taking the two texts and moving them to the right is a fact about layouts: whatever a layout
is made of, its lines hold no line feeds, so that a margin in front of the lines is a margin in
front of the lines of its text (`Layout.ended_map_deeper`).

The margin is put into a text character by character (`Text.indented`). Nothing is asked of the text
and nothing is changed in it, least of all a carriage return in a value, which stands for itself.
-/

namespace Pagewright

/-! ## Margins -/

namespace Text

/-- Puts a margin in front of every line that is not empty; `start` says that a line begins here. -/
def indentFrom (margin : List Char) (start : Bool) : List Char → List Char
  | [] => []
  | c :: rest =>
    if c = '\n' then c :: indentFrom margin true rest
    else (if start then margin else []) ++ c :: indentFrom margin false rest

/-- **The text with a margin** in front of every line that is not empty. -/
def indented (margin s : String) : String :=
  String.ofList (indentFrom margin.toList true s.toList)

variable {margin line : List Char}

/-- After its first character, a line stays as it is. -/
theorem indentFrom_false (h : '\n' ∉ line) (rest : List Char) :
    indentFrom margin false (line ++ '\n' :: rest)
      = line ++ '\n' :: indentFrom margin true rest := by
  induction line with
  | nil => rfl
  | cons c line ih =>
    have hc : c ≠ '\n' := fun heq => h (heq ▸ List.mem_cons_self)
    rw [List.cons_append, indentFrom, if_neg hc, ih (fun hmem => h (List.mem_cons_of_mem _ hmem))]
    rfl

/-- **The margin stands in front of the line**, unless the line is empty. -/
theorem indentFrom_true (h : '\n' ∉ line) (rest : List Char) :
    indentFrom margin true (line ++ '\n' :: rest)
      = (if line = [] then [] else margin ++ line) ++ '\n' :: indentFrom margin true rest := by
  cases line with
  | nil => rfl
  | cons c line =>
    have hc : c ≠ '\n' := fun heq => h (heq ▸ List.mem_cons_self)
    rw [List.cons_append, indentFrom, if_neg hc,
      indentFrom_false (fun hmem => h (List.mem_cons_of_mem _ hmem))]
    simp

theorem feed_not_mem_dropReturn (h : '\n' ∉ line) : '\n' ∉ dropReturn line := by
  unfold dropReturn
  split
  · exact fun hmem => h (List.dropLast_subset line hmem)
  · exact h

/-- No line of a text holds a line feed. -/
theorem feed_not_mem_lines {s line : String} (h : line ∈ lines s) : '\n' ∉ line.toList := by
  -- The characters of the unfinished line hold none either.
  have hfrom : ∀ cs current : List Char, '\n' ∉ current →
      ∀ cs' ∈ linesFrom current cs, '\n' ∉ cs' := by
    intro cs
    induction cs with
    | nil =>
      intro current hcurrent cs' hmem
      unfold linesFrom at hmem
      split at hmem
      · cases hmem
      · cases List.mem_singleton.mp hmem
        simpa using hcurrent
    | cons c cs ih =>
      intro current hcurrent cs' hmem
      unfold linesFrom at hmem
      split at hmem
      · rcases List.mem_cons.mp hmem with rfl | hmem
        · exact feed_not_mem_dropReturn (by simpa using hcurrent)
        · exact ih [] (by simp) cs' hmem
      · next hc => exact ih (c :: current) (by simp [hcurrent, Ne.symm hc]) cs' hmem
  obtain ⟨cs, hcs, rfl⟩ := List.mem_map.mp h
  rw [String.toList_ofList]
  exact hfrom s.toList [] (by simp) cs hcs

end Text

/-! ## Layouts -/

namespace Layout

/-- A line that holds no line feed holds none one level deeper. -/
theorem feed_not_mem_deeper {line : String} (h : '\n' ∉ line.toList) :
    '\n' ∉ (deeper line).toList := by
  unfold deeper
  split
  · exact h
  · rw [String.toList_append]
    simp [indent, h]

mutual

/-- No line of a layout holds a line feed. -/
theorem feed_not_mem_lines (piece : Layout) : ∀ line ∈ piece.lines, '\n' ∉ line.toList := by
  match piece with
  | .text content => exact fun line hline => Text.feed_not_mem_lines hline
  | .blank => simp [lines]
  | .group opening body closing =>
    intro line hline
    rw [lines, List.append_assoc] at hline
    rcases List.mem_append.mp hline with hline | hline
    · exact Text.feed_not_mem_lines hline
    rcases List.mem_append.mp hline with hline | hline
    · obtain ⟨inner, hinner, rfl⟩ := List.mem_map.mp hline
      exact feed_not_mem_deeper (feed_not_mem_linesOf body inner hinner)
    · exact Text.feed_not_mem_lines hline

/-- **No line of a list of layouts holds a line feed**, whatever the texts in them hold. -/
theorem feed_not_mem_linesOf (pieces : List Layout) :
    ∀ line ∈ linesOf pieces, '\n' ∉ line.toList := by
  match pieces with
  | [] => exact fun _ h => nomatch h
  | piece :: rest =>
    intro line hline
    rw [linesOf] at hline
    rcases List.mem_append.mp hline with hline | hline
    · exact feed_not_mem_lines piece line hline
    · exact feed_not_mem_linesOf rest line hline

end

theorem linesOf_append (pieces more : List Layout) :
    linesOf (pieces ++ more) = linesOf pieces ++ linesOf more := by
  induction pieces with
  | nil => rfl
  | cons piece rest ih => rw [List.cons_append, linesOf, linesOf, ih, List.append_assoc]

/-- Lines as a text in which every line is ended. -/
def ended (lines : List String) : String :=
  String.join (lines.map (· ++ "\n"))

theorem render_eq (pieces : List Layout) : render pieces = ended (linesOf pieces) := rfl

@[simp] theorem ended_append (lines more : List String) :
    ended (lines ++ more) = ended lines ++ ended more := by
  unfold ended
  rw [List.map_append, String.join_append]

@[simp] theorem ended_cons (line : String) (lines : List String) :
    ended (line :: lines) = line ++ "\n" ++ ended lines := by
  unfold ended
  rw [List.map_cons, String.join_cons]

@[simp] theorem ended_nil : ended [] = "" := by
  unfold ended
  rw [List.map_nil, String.join_nil]

/-- The characters of a text in which every line is ended. -/
theorem toList_ended (lines : List String) :
    (ended lines).toList = lines.flatMap (·.toList ++ ['\n']) := by
  unfold ended
  rw [String.toList_join, List.flatMap_map]
  exact congrArg (lines.flatMap ·) (funext fun line => String.toList_append)

/-- Two levels are a margin of eight blanks. -/
theorem deeper_deeper {line : String} (h : line ≠ "") :
    deeper (deeper line) = "        " ++ line := by
  have hdeeper : deeper line = indent ++ line := if_neg (by simpa using h)
  have hagain : deeper (indent ++ line) = indent ++ (indent ++ line) := if_neg (by simp [indent])
  rw [hdeeper, hagain, ← String.append_assoc]
  rfl

/-- The characters of a line two levels deeper. -/
theorem toList_deeper_deeper (line : String) :
    (deeper (deeper line)).toList
      = if line.toList = [] then [] else "        ".toList ++ line.toList := by
  by_cases h : line = ""
  · subst h
    rfl
  · rw [deeper_deeper h, String.toList_append, if_neg (by simpa using h)]

/-- **Two levels deeper is eight blanks to the right**: the text of lines that stand two levels
deeper is the text of the lines with a margin. -/
theorem ended_map_deeper {lines : List String} (h : ∀ line ∈ lines, '\n' ∉ line.toList) :
    ended (lines.map (fun line => deeper (deeper line)))
      = Text.indented "        " (ended lines) := by
  refine String.toList_inj.mp ?_
  unfold Text.indented
  rw [String.toList_ofList, toList_ended, toList_ended, List.flatMap_map]
  induction lines with
  | nil => rfl
  | cons line rest ih =>
    have hrest := ih (fun other hother => h other (List.mem_cons_of_mem _ hother))
    rw [List.flatMap_cons, List.flatMap_cons, List.append_assoc, List.append_assoc,
      List.singleton_append, List.singleton_append,
      Text.indentFrom_true (h line List.mem_cons_self), ← hrest, toList_deeper_deeper]

end Layout

/-! ## The page -/

namespace Page

/-- **A page around the text of a head and the text of a body.** The head stands behind the line
that gives the encoding and in front of the link to the stylesheet; both texts have a margin of
eight blanks. -/
def around (options : PageOptions) (head body : String) : String :=
  "<!DOCTYPE html>\n" ++
  "<html>\n" ++
  "    <head>\n" ++
  "        <meta charset=\"utf-8\">\n" ++
  Text.indented "        " head ++
  "        <link rel=\"stylesheet\" href=\"" ++ Html.escapeAttribute options.stylesheet ++
    "\">\n" ++
  "        <script src=\"" ++ Html.escapeAttribute options.script ++ "\"></script>\n" ++
  "    </head>\n" ++
  "    <body>\n" ++
  Text.indented "        " body ++
  "    </body>\n" ++
  "</html>\n"

open Html Layout

/-! ### The lines of a page -/

theorem layoutAll_append (nodes more : List Html) :
    layoutAll (nodes ++ more) = layoutAll nodes ++ layoutAll more := by
  induction nodes with
  | nil => rfl
  | cons node rest ih => rw [List.cons_append, layoutAll, layoutAll, ih, List.cons_append]

/-- A block has its tags on lines of their own and its children one level deeper. -/
theorem lines_block {tag : String} (htag : Plain tag) (children : List Html) :
    (layout (.block tag [] children)).lines
      = openTag tag [] :: (linesOf (layoutAll children)).map deeper ++ [closeTag tag] := by
  have hopen : Text.lines (openTag tag []) = [openTag tag []] := by
    refine Reader.lines_eq_singleton ?_ (Reader.feed_not_mem_openTag htag (List.forall_mem_nil _))
    rw [Reader.toList_openTag]
    exact List.cons_ne_nil _ _
  have hclose : Text.lines (closeTag tag) = [closeTag tag] := by
    refine Reader.lines_eq_singleton ?_ (Reader.feed_not_mem_closeTag htag)
    rw [Reader.toList_closeTag]
    exact List.cons_ne_nil _ _
  rw [layout, lines, hopen, hclose]
  rfl

/-- The lines that name the stylesheet and the script. -/
theorem linesOf_links (options : PageOptions) :
    linesOf (layoutAll
      [.void "link" [⟨"rel", "stylesheet"⟩, ⟨"href", options.stylesheet⟩],
       .inline "script" [⟨"src", options.script⟩] []])
      = ["<link rel=\"stylesheet\" href=\"" ++ escapeAttribute options.stylesheet ++ "\">",
         "<script src=\"" ++ escapeAttribute options.script ++ "\"></script>"] := by
  have hlink : openTag "link" [⟨"rel", "stylesheet"⟩, ⟨"href", options.stylesheet⟩]
      = "<link rel=\"stylesheet\" href=\"" ++ escapeAttribute options.stylesheet ++ "\">" := by
    refine String.toList_inj.mp ?_
    rw [Reader.toList_openTag]
    simp [Reader.toList_written, escapeAttribute, attributeChar, firstNumeric]
  have hscript : openTag "script" [⟨"src", options.script⟩] ++ writtenAll [] ++ closeTag "script"
      = "<script src=\"" ++ escapeAttribute options.script ++ "\"></script>" := by
    refine String.toList_inj.mp ?_
    rw [String.toList_append, String.toList_append, Reader.toList_openTag]
    simp [Reader.toList_written, Reader.toList_closeTag, writtenAll]
  have hfeed := Reader.feed_not_mem_escapeAttribute
  rw [layoutAll, layoutAll, layoutAll, linesOf, linesOf, linesOf, layout, layout, lines, lines,
    written, written, hlink, hscript, Reader.lines_eq_singleton (by simp) (by simp [hfeed]),
    Reader.lines_eq_singleton (by simp) (by simp [hfeed])]
  · rfl
  · exact nofun
  · exact nofun

/-- **The text of a page is the page around the texts of its head and its body.** -/
theorem render_shell (options : PageOptions) (head body : List Html) :
    Layout.render (shell options head body)
      = around options (Html.render head) (Html.render body) := by
  have hdeeper : ∀ nodes : List Html,
      ended (((linesOf (layoutAll nodes)).map deeper).map deeper)
        = Text.indented "        " (Html.render nodes) := by
    intro nodes
    rw [List.map_map]
    exact ended_map_deeper (feed_not_mem_linesOf (layoutAll nodes))
  have hline : ∀ before value after : String, "        " ++ (before ++ value ++ after) ++ "\n"
      = "        " ++ before ++ value ++ (after ++ "\n") := by
    intro before value after
    simp only [String.append_assoc]
  have hmeta : linesOf (layoutAll [.void "meta" [⟨"charset", "utf-8"⟩]])
      = ["<meta charset=\"utf-8\">"] := rfl
  have hhead : layoutAll (.void "meta" [⟨"charset", "utf-8"⟩] :: head ++
        [.void "link" [⟨"rel", "stylesheet"⟩, ⟨"href", options.stylesheet⟩],
         .inline "script" [⟨"src", options.script⟩] []])
      = layoutAll [.void "meta" [⟨"charset", "utf-8"⟩]] ++ layoutAll head ++ layoutAll
          [.void "link" [⟨"rel", "stylesheet"⟩, ⟨"href", options.stylesheet⟩],
           .inline "script" [⟨"src", options.script⟩] []] := by
    rw [← layoutAll_append, ← layoutAll_append]
    rfl
  rw [render_eq, shell, linesOf, layoutAll, layoutAll, linesOf, linesOf, lines_block (by decide),
    layoutAll, layoutAll, layoutAll, linesOf, linesOf, linesOf, lines_block (by decide),
    lines_block (by decide), hhead, linesOf_append, linesOf_append, hmeta, linesOf_links]
  simp only [List.map_append, ended_append, List.map_cons, List.map_nil, ended_cons, ended_nil,
    hdeeper]
  rw [deeper_deeper (by simp), deeper_deeper (by simp), deeper_deeper (by simp), hline, hline]
  -- What is left are lines without anything of the document or the options in them.
  rw [show ended (lines (.text "<!DOCTYPE html>")) = "<!DOCTYPE html>\n" from rfl,
    show openTag "html" [] ++ "\n" = "<html>\n" from rfl,
    show deeper (openTag "head" []) ++ "\n" = "    <head>\n" from rfl,
    show "        " ++ "<meta charset=\"utf-8\">" ++ "\n"
      = "        <meta charset=\"utf-8\">\n" from rfl,
    show "        " ++ "<link rel=\"stylesheet\" href=\""
      = "        <link rel=\"stylesheet\" href=\"" from rfl,
    show "\">" ++ "\n" = "\">\n" from rfl,
    show "        " ++ "<script src=\"" = "        <script src=\"" from rfl,
    show "\"></script>" ++ "\n" = "\"></script>\n" from rfl,
    show deeper (closeTag "head") ++ "\n" = "    </head>\n" from rfl,
    show deeper (openTag "body" []) ++ "\n" = "    <body>\n" from rfl,
    show deeper (closeTag "body") ++ "\n" = "    </body>\n" from rfl,
    show closeTag "html" ++ "\n" = "</html>\n" from rfl]
  unfold around
  simp only [String.append_assoc, String.append_empty]

end Page

/-! ## Writing a page -/

namespace Emission

/-- The result of a pass in two parts, neither of which looks at the run, is put together from
results that the parts have in any runs. -/
theorem Oblivious.result_bind {α β : Type} {m : ClassSource → Emission α}
    {f : ClassSource → α → Emission β} (hm : Oblivious m)
    (hf : ∀ a, Oblivious (fun source => f source a)) (source : ClassSource)
    (run run₁ run₂ : Run) :
    ((m source >>= f source).on run).1
      = ((m source).on run₁).1 >>= fun a => ((f source a).on run₂).1 := by
  rw [hm.result_eq source source run₁ run, on_bind]
  rcases (m source).on run with ⟨e | a, run'⟩
  · rfl
  · exact (hf a).result_eq source source run' run₂

end Emission

namespace Document

open Emission

/-- **A page is written as its head and its body are written.** The page fails as the head does, or
else as the body does. If neither fails, its text is the page around the texts of the two. It makes
no difference in which runs these are written. -/
theorem emitPage_eq_around (doc : Document) (source : ClassSource) (options : PageOptions)
    (run run₁ run₂ : Run) :
    ((doc.emitPage source options).on run).1 = do
      let head ← ((doc.emitHead source).on run₁).1
      let body ← ((doc.emitBody source).on run₂).1
      return Page.around options head body := by
  have hmarkup := doc.markup_oblivious
  have hdone : ∀ text : String,
      Oblivious fun _ => (modify ({ · with markupDone := true }) >>= fun _ => pure text) :=
    fun text => (Oblivious.effect .done).bind (fun _ => Oblivious.pure text)
  have hhead : ((doc.emitHead source).on run₁).1
      = ((doc.markup source doc.head).on run).1 >>= fun nodes => .ok (Html.render nodes) :=
    (hmarkup doc.head).result_bind (fun _ => Oblivious.pure _) source run₁ run run
  have hbody : ((doc.emitBody source).on run₂).1
      = ((doc.markup source doc.body).on run).1 >>= fun nodes => .ok (Html.render nodes) :=
    (hmarkup doc.body).result_bind (fun _ => hdone _) source run₂ run run
  have hpage : ((doc.emitPage source options).on run).1
      = ((doc.markup source doc.head).on run).1 >>= fun head =>
          ((doc.markup source doc.body).on run).1 >>= fun body =>
            .ok (Layout.render (Page.shell options head body)) := by
    have hrest : ∀ head : List Html, Oblivious fun source =>
        doc.markup source doc.body >>= fun body =>
          modify ({ · with markupDone := true }) >>= fun _ =>
            pure (Layout.render (Page.shell options head body)) :=
      fun head => (hmarkup doc.body).bind (fun body => hdone _)
    refine ((Oblivious.effect (.note _)).result_bind (fun _ => (hmarkup doc.head).bind hrest)
      source run run run).trans ?_
    refine ((hmarkup doc.head).result_bind hrest source run run run).trans ?_
    refine congrArg (_ >>= ·) (funext fun head => ?_)
    exact (hmarkup doc.body).result_bind (fun body => hdone _) source run run run
  rw [hpage, hhead, hbody]
  cases ((doc.markup source doc.head).on run).1 with
  | error e => rfl
  | ok head =>
    cases ((doc.markup source doc.body).on run).1 with
    | error e => rfl
    | ok body => exact congrArg Except.ok (Page.render_shell options head body)

end Document

end Pagewright
