import Pagewright.Proofs.Html.Escape

/-!
# What is written is what is read

Nodes are written on one line or on several, indented or not; and reading the text gives the nodes
back (`Html.read_render`). The proof follows the text from left to right: an opening tag is read as
the tag with its attributes in order, and its closing tag closes the same element. From there it
goes up through the tree, first for nodes on one line and then for blocks, whose children stand on
lines of their own.

The tree has to be one that can be written. Names of tags and attributes consist of letters and
digits, tags without a closing tag are those that the reader knows of, and between the lines of a
block there are elements only: the blanks at the start of a text would be taken for indentation
(`Html.Sound`). Nothing is asked of texts and values.
-/

namespace Pagewright

namespace Html

/-! ## The tree that nodes stand for -/

mutual

/-- The node as it is read. -/
def dom : Html → List Dom
  | text content => prose content
  | void tag attrs => [.element tag attrs []]
  | inline tag attrs children => [.element tag attrs (domAll children)]
  | block tag attrs children => [.element tag attrs (domAll children)]

/-- Nodes that follow each other as they are read. -/
def domAll : List Html → List Dom
  | [] => []
  | node :: rest => dom node ++ domAll rest

end

/-- A name of letters and digits. -/
def Plain (name : String) : Prop :=
  name.toList ≠ [] ∧ name.toList.all Char.isAlphanum

instance (name : String) : Decidable (Plain name) :=
  inferInstanceAs (Decidable (_ ∧ _))

/-- The tag of an element that is closed. -/
def Closable (tag : String) : Prop :=
  Plain tag ∧ tag ∉ voidTags

instance (tag : String) : Decidable (Closable tag) :=
  inferInstanceAs (Decidable (_ ∧ _))

theorem Plain.isAlphanum {name : String} (h : Plain name) {c : Char} (hc : c ∈ name.toList) :
    c.isAlphanum :=
  List.all_eq_true.mp h.2 c hc

/-- The node is text outside all elements. -/
def isText : Html → Bool
  | text _ => true
  | _ => false

mutual

/-- **The node can be written**: its names are plain, the tags without a closing tag are known, and
no text stands on lines of its own. -/
def Sound : Html → Prop
  | text _ => True
  | void tag attrs => Plain tag ∧ tag ∈ voidTags ∧ ∀ a ∈ attrs, Plain a.name
  | inline tag attrs children =>
    Closable tag ∧ (∀ a ∈ attrs, Plain a.name) ∧ SoundAll children
  | block tag attrs children =>
    Closable tag ∧ (∀ a ∈ attrs, Plain a.name) ∧ SoundAll children ∧
      ∀ child ∈ children, child.isText = false

/-- All nodes can be written. -/
def SoundAll : List Html → Prop
  | [] => True
  | node :: rest => Sound node ∧ SoundAll rest

end

namespace Reader

variable {tree : PartialTree}

/-! ## Tags -/

theorem ne_of_isAlphanum {c d : Char} (hc : c.isAlphanum) (hd : d.isAlphanum = false) : c ≠ d := by
  rintro rfl
  rw [hc] at hd
  cases hd

theorem toList_written (a : Attribute) :
    a.written.toList
      = ' ' :: (a.name.toList ++ '=' :: '"' :: ((escapeAttribute a.value).toList ++ ['"'])) := by
  unfold Attribute.written
  simp [toString]

/-- **An attribute is read as its name and its value.** It may follow the name of the tag or another
attribute. -/
theorem reads_attribute {s : State} {tag : Tag}
    (hs : step s ' ' = some ⟨.attributeName tag [], tree⟩) (a : Attribute) (ha : Plain a.name) :
    Reads s a.written.toList ⟨.afterValue { tag with attrs := tag.attrs ++ [a] }, tree⟩ := by
  have hname : Reads ⟨.attributeName tag [], tree⟩ a.name.toList
      ⟨.attributeName tag a.name.toList, tree⟩ := by
    refine reads_collected [] (fun c hc before => ?_)
    have hplain := ha.isAlphanum hc
    show (if c = '=' ∧ before ≠ [] then _ else if c.isAlphanum then _ else _) = _
    rw [if_neg (fun h => ne_of_isAlphanum hplain (by decide) h.1), if_pos hplain]
  rw [toList_written]
  refine Reads.cons hs (hname.append (Reads.cons (if_pos ⟨rfl, ha.1⟩) (Reads.cons rfl ?_)))
  refine (reads_escapeAttribute tag a.name.toList a.value).append (Reads.single ?_)
  show some (⟨.afterValue ⟨tag.name, tag.attrs ++ [⟨_, _⟩]⟩, tree⟩ : State) = _
  rw [String.ofList_toList, String.ofList_toList]

/-- Attributes are read in order. -/
theorem reads_attributes (tag : Tag) (attrs : List Attribute) (h : ∀ a ∈ attrs, Plain a.name) :
    Reads ⟨.afterValue tag, tree⟩ (attrs.flatMap (·.written.toList))
      ⟨.afterValue { tag with attrs := tag.attrs ++ attrs }, tree⟩ := by
  induction attrs generalizing tag with
  | nil =>
    rw [List.append_nil]
    exact Reads.nil _
  | cons a rest ih =>
    have hfirst : Reads ⟨.afterValue tag, tree⟩ a.written.toList
        ⟨.afterValue { tag with attrs := tag.attrs ++ [a] }, tree⟩ :=
      reads_attribute rfl a (h a List.mem_cons_self)
    have hrest := ih { tag with attrs := tag.attrs ++ [a] }
      (fun b hb => h b (List.mem_cons_of_mem _ hb))
    rw [List.append_assoc] at hrest
    exact hfirst.append hrest

/-- The name of an opening tag is read to its end. -/
theorem reads_openingName {tag : String} (htag : Plain tag) :
    Reads ⟨.tagStart, tree⟩ tag.toList ⟨.openingName tag.toList, tree⟩ := by
  cases hcs : tag.toList with
  | nil => exact absurd hcs htag.1
  | cons c cs =>
    have hplain : ∀ d ∈ c :: cs, d.isAlphanum := fun d hd => htag.isAlphanum (hcs ▸ hd)
    have hc := hplain c List.mem_cons_self
    have hfirst : step ⟨.tagStart, tree⟩ c = some ⟨.openingName [c], tree⟩ := by
      show (if c = '/' then _ else if c.isAlphanum then _ else _) = _
      rw [if_neg (ne_of_isAlphanum hc (by decide)), if_pos hc]
    refine Reads.cons hfirst (reads_collected [c] (fun d hd before => ?_))
    have hd := hplain d (List.mem_cons_of_mem _ hd)
    show (if d = '>' then _ else if d = ' ' then _ else if d.isAlphanum then _ else _) = _
    rw [if_neg (ne_of_isAlphanum hd (by decide)), if_neg (ne_of_isAlphanum hd (by decide)),
      if_pos hd]

theorem toList_openTag (tag : String) (attrs : List Attribute) :
    (openTag tag attrs).toList
      = '<' :: (tag.toList ++ (attrs.flatMap (·.written.toList) ++ ['>'])) := by
  unfold openTag
  rw [String.toList_append, String.toList_append, String.toList_append, String.toList_join,
    List.flatMap_map, List.append_assoc, List.append_assoc]
  rfl

/-- **An opening tag is read as the tag with its attributes.** -/
theorem reads_openTag {tag : String} (htag : Plain tag) {attrs : List Attribute}
    (hattrs : ∀ a ∈ attrs, Plain a.name) :
    Reads ⟨.content, tree⟩ (openTag tag attrs).toList ⟨.content, tree.enter tag attrs⟩ := by
  rw [toList_openTag]
  refine Reads.cons rfl ((reads_openingName htag).append ?_)
  -- The first attribute follows the name of the tag, all others follow an attribute.
  cases attrs with
  | nil =>
    refine Reads.single ?_
    show some (⟨.content, tree.enter (String.ofList tag.toList) []⟩ : State) = _
    rw [String.ofList_toList]
  | cons a rest =>
    have hfirst : Reads ⟨.openingName tag.toList, tree⟩ a.written.toList
        ⟨.afterValue ⟨tag.toList, [a]⟩, tree⟩ :=
      @reads_attribute tree _ ⟨tag.toList, []⟩ rfl a (hattrs a List.mem_cons_self)
    have hrest : Reads ⟨.afterValue ⟨tag.toList, [a]⟩, tree⟩ (rest.flatMap (·.written.toList))
        ⟨.afterValue ⟨tag.toList, a :: rest⟩, tree⟩ :=
      reads_attributes ⟨tag.toList, [a]⟩ rest (fun b hb => hattrs b (List.mem_cons_of_mem _ hb))
    rw [List.flatMap_cons]
    refine (hfirst.append hrest).append (Reads.single ?_)
    show some (⟨.content, tree.enter (String.ofList tag.toList) (a :: rest)⟩ : State) = _
    rw [String.ofList_toList]

theorem toList_closeTag (tag : String) :
    (closeTag tag).toList = '<' :: '/' :: (tag.toList ++ ['>']) := by
  unfold closeTag
  rw [String.toList_append, String.toList_append]
  rfl

/-- **A closing tag ends the innermost element**, if that is its own. -/
theorem reads_closeTag {tag : String} (htag : Plain tag) {tree' : PartialTree}
    (h : tree.leave? tag = some tree') :
    Reads ⟨.content, tree⟩ (closeTag tag).toList ⟨.content, tree'⟩ := by
  have hname : Reads ⟨.closingName [], tree⟩ tag.toList ⟨.closingName tag.toList, tree⟩ := by
    refine reads_collected [] (fun c hc before => ?_)
    have hplain := htag.isAlphanum hc
    show (if c = '>' then _ else if c.isAlphanum then _ else _) = _
    rw [if_neg (ne_of_isAlphanum hplain (by decide)), if_pos hplain]
  rw [toList_closeTag]
  refine Reads.cons rfl (Reads.cons rfl (hname.append (Reads.single ?_)))
  show (tree.leave? (String.ofList tag.toList)).map _ = _
  rw [String.ofList_toList, h]
  rfl

/-! ## Nodes on one line -/

mutual

/-- **A node on one line is read as the node.** -/
theorem reads_written (node : Html) (h : node.Sound) (tree : PartialTree) :
    Reads ⟨.content, tree⟩ node.written.toList ⟨.content, tree.extend node.dom⟩ := by
  match node with
  | .text content =>
    rw [written, dom]
    exact reads_escapeText content
  | .void tag attrs =>
    obtain ⟨htag, hvoid, hattrs⟩ := h
    rw [written, dom, ← tree.enter_void hvoid]
    exact reads_openTag htag hattrs
  | .inline tag attrs children =>
    obtain ⟨⟨htag, hvoid⟩, hattrs, hchildren⟩ := h
    rw [written, dom, String.toList_append, String.toList_append]
    exact ((reads_openTag htag hattrs).append (reads_writtenAll children hchildren _)).append
      (reads_closeTag htag (tree.leave?_enter hvoid attrs _))
  | .block tag attrs children =>
    obtain ⟨⟨htag, hvoid⟩, hattrs, hchildren, -⟩ := h
    rw [written, dom, String.toList_append, String.toList_append]
    exact ((reads_openTag htag hattrs).append (reads_writtenAll children hchildren _)).append
      (reads_closeTag htag (tree.leave?_enter hvoid attrs _))

/-- Nodes that follow each other on one line are read in order. -/
theorem reads_writtenAll (nodes : List Html) (h : SoundAll nodes) (tree : PartialTree) :
    Reads ⟨.content, tree⟩ (writtenAll nodes).toList ⟨.content, tree.extend (domAll nodes)⟩ := by
  match nodes with
  | [] =>
    rw [writtenAll, domAll, PartialTree.extend_nil]
    exact Reads.nil _
  | node :: rest =>
    rw [writtenAll, domAll, String.toList_append, ← PartialTree.extend_extend]
    exact (reads_written node h.1 tree).append (reads_writtenAll rest h.2 _)

end

/-! ## Lines -/

/-- **The reader comes over these lines** from one partial tree to another, standing at the start of
a line before and after each. -/
inductive ReadsLines : PartialTree → List String → PartialTree → Prop where
  | nil (tree : PartialTree) : ReadsLines tree [] tree
  | cons {tree tree₁ tree₂ : PartialTree} {line : String} {lines : List String}
      (hline : Reads ⟨.margin, tree⟩ (line.toList ++ ['\n']) ⟨.margin, tree₁⟩)
      (hlines : ReadsLines tree₁ lines tree₂) : ReadsLines tree (line :: lines) tree₂

namespace ReadsLines

variable {tree₁ tree₂ : PartialTree} {lines lines' : List String}

theorem append (h : ReadsLines tree lines tree₁) (h' : ReadsLines tree₁ lines' tree₂) :
    ReadsLines tree (lines ++ lines') tree₂ := by
  induction h with
  | nil => exact h'
  | cons hline _ ih => exact .cons hline (ih h')

/-- **Indentation does not matter.** -/
theorem deeper (h : ReadsLines tree lines tree₁) :
    ReadsLines tree (lines.map Layout.deeper) tree₁ := by
  induction h with
  | nil => exact .nil _
  | @cons tree tree₁ tree₂ line lines hline _ ih =>
    refine .cons ?_ ih
    unfold Layout.deeper
    split
    · exact hline
    · rw [String.toList_append, List.append_assoc]
      have hindent : Reads ⟨.margin, tree⟩ Layout.indent.toList ⟨.margin, tree⟩ := rfl
      exact hindent.append hline

/-- The lines of a text, read one by one, are the text. -/
theorem reads (h : ReadsLines tree lines tree₁) :
    Reads ⟨.margin, tree⟩ (lines.flatMap (·.toList ++ ['\n'])) ⟨.margin, tree₁⟩ := by
  induction h with
  | nil => exact Reads.nil _
  | cons hline _ ih => exact hline.append ih

/-- A line that begins with a tag. -/
theorem single {line : String} {rest : List Char} (hline : line.toList = '<' :: rest)
    (h : Reads ⟨.content, tree⟩ line.toList ⟨.content, tree₁⟩) : ReadsLines tree [line] tree₁ := by
  refine .cons ?_ (.nil _)
  rw [hline] at h ⊢
  -- At the start of a line, a character other than a blank is read as anywhere between tags.
  have hmargin : Reads ⟨.margin, tree⟩ ('<' :: rest) ⟨.content, tree₁⟩ := h
  exact hmargin.append (Reads.single rfl)

end ReadsLines

/-! ## No line is broken -/

/-- A text without line feeds is one line. -/
theorem lines_eq_singleton {s : String} (hne : s.toList ≠ []) (hs : '\n' ∉ s.toList) :
    Text.lines s = [s] := by
  -- The characters of the unfinished line are kept in reverse.
  have hfrom : ∀ cs current : List Char, '\n' ∉ cs → current.reverse ++ cs ≠ [] →
      Text.linesFrom current cs = [current.reverse ++ cs] := by
    intro cs
    induction cs with
    | nil =>
      intro current _ hne
      unfold Text.linesFrom
      rw [List.append_nil] at hne ⊢
      rw [if_neg]
      intro h
      exact hne (by rw [List.isEmpty_iff.mp h]; rfl)
    | cons c cs ih =>
      intro current hmem _
      have hc : c ≠ '\n' := fun h => hmem (h ▸ List.mem_cons_self)
      have hcs : '\n' ∉ cs := fun h => hmem (List.mem_cons_of_mem _ h)
      unfold Text.linesFrom
      rw [if_neg hc, ih (c :: current) hcs (by simp), List.reverse_cons, List.append_assoc]
      rfl
  unfold Text.lines
  rw [hfrom s.toList [] hs hne]
  exact congrArg (fun line => [line]) (String.ofList_toList)

theorem feed_not_mem_of_plain {name : String} (h : Plain name) : '\n' ∉ name.toList :=
  fun hmem => absurd (h.isAlphanum hmem) (by decide)

theorem feed_not_mem_openTag {tag : String} (htag : Plain tag) {attrs : List Attribute}
    (hattrs : ∀ a ∈ attrs, Plain a.name) : '\n' ∉ (openTag tag attrs).toList := by
  have hattribute : '\n' ∉ attrs.flatMap (·.written.toList) := by
    intro h
    obtain ⟨a, ha, h⟩ := List.mem_flatMap.mp h
    rw [toList_written] at h
    simp [feed_not_mem_of_plain (hattrs a ha), feed_not_mem_escapeAttribute a.value] at h
  rw [toList_openTag]
  simp [feed_not_mem_of_plain htag, hattribute]

theorem feed_not_mem_closeTag {tag : String} (htag : Plain tag) : '\n' ∉ (closeTag tag).toList := by
  rw [toList_closeTag]
  simp [feed_not_mem_of_plain htag]

mutual

/-- A node on one line stays on one line. -/
theorem feed_not_mem_written (node : Html) (h : node.Sound) : '\n' ∉ node.written.toList := by
  match node with
  | .text content =>
    rw [written]
    exact feed_not_mem_escapeText content
  | .void tag attrs =>
    rw [written]
    exact feed_not_mem_openTag h.1 h.2.2
  | .inline tag attrs children =>
    obtain ⟨⟨htag, -⟩, hattrs, hchildren⟩ := h
    rw [written, String.toList_append, String.toList_append]
    simp [feed_not_mem_openTag htag hattrs, feed_not_mem_closeTag htag,
      feed_not_mem_writtenAll children hchildren]
  | .block tag attrs children =>
    obtain ⟨⟨htag, -⟩, hattrs, hchildren, -⟩ := h
    rw [written, String.toList_append, String.toList_append]
    simp [feed_not_mem_openTag htag hattrs, feed_not_mem_closeTag htag,
      feed_not_mem_writtenAll children hchildren]

theorem feed_not_mem_writtenAll (nodes : List Html) (h : SoundAll nodes) :
    '\n' ∉ (writtenAll nodes).toList := by
  match nodes with
  | [] => exact fun h => nomatch h
  | node :: rest =>
    rw [writtenAll, String.toList_append]
    simp [feed_not_mem_written node h.1, feed_not_mem_writtenAll rest h.2]

end

/-! ## Blocks -/

/-- A tag on a line of its own. -/
theorem readsLines_openTag {tag : String} (htag : Plain tag) {attrs : List Attribute}
    (hattrs : ∀ a ∈ attrs, Plain a.name) :
    ReadsLines tree (Text.lines (openTag tag attrs)) (tree.enter tag attrs) := by
  have htext := toList_openTag tag attrs
  rw [lines_eq_singleton (by rw [htext]; exact List.cons_ne_nil _ _)
    (feed_not_mem_openTag htag hattrs)]
  exact .single htext (reads_openTag htag hattrs)

theorem readsLines_closeTag {tag : String} (htag : Plain tag) {tree' : PartialTree}
    (h : tree.leave? tag = some tree') : ReadsLines tree (Text.lines (closeTag tag)) tree' := by
  have htext := toList_closeTag tag
  rw [lines_eq_singleton (by rw [htext]; exact List.cons_ne_nil _ _) (feed_not_mem_closeTag htag)]
  exact .single htext (reads_closeTag htag h)

/-- An element on a line of its own. -/
theorem readsLines_written (node : Html) (h : node.Sound) (htext : node.isText = false)
    (tree : PartialTree) : ReadsLines tree (Text.lines node.written) (tree.extend node.dom) := by
  have hstart : ∃ rest, node.written.toList = '<' :: rest := by
    cases node with
    | text content => cases htext
    | void tag attrs => exact ⟨_, by rw [written, toList_openTag]⟩
    | inline tag attrs children =>
      exact ⟨_, by rw [written, String.toList_append, String.toList_append, toList_openTag]; rfl⟩
    | block tag attrs children =>
      exact ⟨_, by rw [written, String.toList_append, String.toList_append, toList_openTag]; rfl⟩
  obtain ⟨rest, hrest⟩ := hstart
  rw [lines_eq_singleton (by rw [hrest]; exact List.cons_ne_nil _ _)
    (feed_not_mem_written node h)]
  exact .single hrest (reads_written node h tree)

mutual

/-- **The lines of a node are read as the node.** -/
theorem readsLines_layout (node : Html) (h : node.Sound) (htext : node.isText = false)
    (tree : PartialTree) : ReadsLines tree node.layout.lines (tree.extend node.dom) := by
  match node with
  | .text content => cases htext
  | .void tag attrs => exact readsLines_written (.void tag attrs) h htext tree
  | .inline tag attrs children => exact readsLines_written (.inline tag attrs children) h htext tree
  | .block tag attrs children =>
    obtain ⟨⟨htag, hvoid⟩, hattrs, hchildren, hchildText⟩ := h
    rw [layout, Layout.lines, dom]
    -- The children stand one level deeper, which the reader does not see.
    refine ((readsLines_openTag htag hattrs).append ?_).append
      (readsLines_closeTag htag (tree.leave?_enter hvoid attrs _))
    exact (readsLines_layoutAll children hchildren hchildText _).deeper

theorem readsLines_layoutAll (nodes : List Html) (h : SoundAll nodes)
    (htext : ∀ node ∈ nodes, node.isText = false) (tree : PartialTree) :
    ReadsLines tree (Layout.linesOf (layoutAll nodes)) (tree.extend (domAll nodes)) := by
  match nodes with
  | [] =>
    rw [domAll, PartialTree.extend_nil]
    exact .nil tree
  | node :: rest =>
    rw [layoutAll, Layout.linesOf, domAll, ← PartialTree.extend_extend]
    exact (readsLines_layout node h.1 (htext node List.mem_cons_self) tree).append
      (readsLines_layoutAll rest h.2 (fun n hn => htext n (List.mem_cons_of_mem _ hn)) _)

end

end Reader

/-- **What is written is what is read**: reading the text of nodes gives the nodes back, if they can
be written and no text stands outside all elements. -/
theorem read_render {nodes : List Html} (h : SoundAll nodes)
    (htext : ∀ node ∈ nodes, node.isText = false) : read (render nodes) = some (domAll nodes) := by
  have hended : (fun line : String => (line ++ "\n").toList) = fun line => line.toList ++ ['\n'] :=
    funext (fun _ => String.toList_append)
  refine Reader.read_eq_some ?_
  unfold render Layout.render
  rw [String.toList_join, List.flatMap_map, hended]
  exact (Reader.readsLines_layoutAll nodes h htext .empty).reads

end Html

end Pagewright
