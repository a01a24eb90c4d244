import Pagewright.Document.Load
import Pagewright.Proofs.DocumentNumbers
import Pagewright.Proofs.Schema.Reading

/-!
# Documents loaded back

A document that was written as JSON is loaded back, and so is any text that the written one can be
edited into by moving the members of objects and adding members with names of their own. The numbers
of the document have to be finite, since JSON has no text for the others, and its JSON must not open
more levels than a reader allows.

All but the numbers is then the same as it was. The text of a number says which double was meant,
but a reader computes it from the digits in doubles, and that may miss by a little: a document with
the number `51.248178375505404` comes back with another one. Short texts are computed exactly.
-/

namespace Pagewright

namespace Schema

open Json (Numbers)

variable {P : Float → Prop}

/-! ## Values as documents write them -/

/-- **The form that documents are written in.** Tagged records start with their tag, all members are
fields of the record, and what is empty by itself is left out: there is no null, and no empty list
among attributes. -/
inductive Terse : Shape → Json → Prop where
  | scalar {s : Shape} {j : Json} (hscalar : j.IsScalar) (hnull : j ≠ .null) : Terse s j
  | list {s : Shape} {items : List Json} (h : ∀ j ∈ items, Terse s j) :
    Terse (.list s) (.array items)
  | record {k : RecordKind} {members : List (String × Json)}
    (hname : ∀ m ∈ members, m.1 ∈ k.layout.fields.map Field.name)
    (h : ∀ m ∈ members, ∀ f, fieldOf k.layout.fields m.1 = some f → Terse f.shape m.2)
    (hempty : k = .attributes → ∀ m ∈ members, m.2 ≠ .array []) :
    Terse (.record k) (.object members)
  | union {k : UnionKind} {tag : String} {layout : Layout k.Value}
    {members : List (String × Json)} (hlayout : k.layouts.lookup tag = some layout)
    (hname : ∀ m ∈ members, m.1 ∈ layout.fields.map Field.name)
    (h : ∀ m ∈ members, ∀ f, fieldOf layout.fields m.1 = some f → Terse f.shape m.2) :
    Terse (.union k) (.object (("type", .string tag) :: members))

theorem Terse.plain {s : Shape} {j : Json} (h : Terse s j) : Plain s j := by
  induction h with
  | scalar hscalar hnull => exact .scalar hscalar
  | list h ih => exact .list ih
  | record hname h hempty ih =>
    exact .record ih fun m hm hnone => absurd (hname m hm) (fieldOf_eq_none_iff.1 hnone)
  | @union k tag layout members hlayout hname h ih =>
    refine .union fun m hm htag => ?_
    obtain rfl | hm := List.mem_cons.1 hm
    · exact ⟨tag, rfl⟩
    · exact absurd (htag ▸ hname m hm) (List.nodup_cons.1 (UnionKind.nodup_of_lookup hlayout)).1

theorem Terse.isNull {s : Shape} {j : Json} (h : Terse s j) : isNull j = false := by
  cases h with
  | scalar _ hnull => exact isNull_of_ne hnull
  | list | record | union => rfl

/-- **The value stands for `v`**, is written as documents are, and its decimals are as required. -/
structure Stands (P : Float → Prop) (s : Shape) (j : Json) (v : s.Value) : Prop where
  decode : decode s j = .ok v
  terse : Terse s j
  numbers : Numbers P j

/-- What the members of a record hold. -/
def Holds (P : Float → Prop) (s : Shape) (j : Json) : Prop :=
  Terse s j ∧ Numbers P j

section Records

variable {members : List (String × Json)}

theorem Stands.record_of {k : RecordKind} {v : k.Value} {values : Values k.layout.fields}
    (h : Fills (Holds P) k.layout.fields members values)
    (hempty : k = .attributes → ∀ m ∈ members, m.2 ≠ .array [])
    (hv : Curried.apply _ k.layout.build values = v) :
    Stands P (.record k) (.object members) v := by
  subst hv
  refine ⟨h.decode_record, .record (fun m hm => h.name_mem hm)
    (fun m hm f hf => (h.of_fieldOf k.nodup_layout hm hf).1) hempty, .object fun m hm => ?_⟩
  obtain ⟨f, -, -, hnumbers⟩ := h.exists_fieldOf k.nodup_layout hm
  exact hnumbers

theorem Stands.record {k : RecordKind} (hk : k ≠ .attributes) {v : k.Value}
    {values : Values k.layout.fields} (h : Fills (Holds P) k.layout.fields members values)
    (hv : Curried.apply _ k.layout.build values = v) : Stands P (.record k) (.object members) v :=
  .record_of h (fun heq => absurd heq hk) hv

theorem Stands.tagged {k : UnionKind} {v : k.Value} {tag : String} {layout : Layout k.Value}
    {values : Values layout.fields} (hlayout : k.layouts.lookup tag = some layout)
    (h : Fills (Holds P) layout.fields members values)
    (hv : Curried.apply _ layout.build values = v) :
    Stands P (.union k) (tagged tag members) v := by
  subst hv
  have hnodup := (List.nodup_cons.1 (UnionKind.nodup_of_lookup hlayout)).2
  refine ⟨h.decode_union hlayout, .union hlayout (fun m hm => h.name_mem hm)
    fun m hm f hf => (h.of_fieldOf hnodup hm hf).1, .object fun m hm => ?_⟩
  obtain rfl | hm := List.mem_cons.1 hm
  · exact .string tag
  · obtain ⟨f, -, -, hnumbers⟩ := h.exists_fieldOf hnodup hm
    exact hnumbers

variable {fs : List Field} {values : Values fs} {s : Shape} {name : String}

theorem Fills.required {j : Json} {v : s.Value} (h : Stands P s j v)
    (rest : Fills (Holds P) fs members values) :
    Fills (Holds P) (required name s :: fs) ((name, j) :: members) (v, values) :=
  .given h.decode ⟨h.terse, h.numbers⟩ rest

theorem Fills.default {value : s.Value} {j : Json} {v : s.Value} (h : Stands P s j v)
    (rest : Fills (Holds P) fs members values) :
    Fills (Holds P) (⟨name, s, .default value⟩ :: fs) ((name, j) :: members) (v, values) :=
  .given h.decode ⟨h.terse, h.numbers⟩ rest

theorem Fills.ifSome {toJson : s.Value → Json} {o : Option s.Value}
    (h : ∀ a ∈ o, Stands P s (toJson a) a) (rest : Fills (Holds P) fs members values) :
    Fills (Holds P) (optional name s :: fs) (memberIfSome name toJson o ++ members)
      (o, values) := by
  cases o with
  | none => exact .absent rfl rest
  | some a =>
    have ha := h a rfl
    refine .given ?_ ⟨ha.terse, ha.numbers⟩ rest
    rw [ha.terse.isNull]
    show (do return some (← Schema.decode s (toJson a)) : Except Json.Problem _) = _
    rw [ha.decode]
    rfl

theorem Fills.lastIfSome {toJson : s.Value → Json} {o : Option s.Value}
    (h : ∀ a ∈ o, Stands P s (toJson a) a) :
    Fills (Holds P) [optional name s] (memberIfSome name toJson o) (o, ()) := by
  have hfills : Fills (Holds P) [optional name s] (memberIfSome name toJson o ++ []) (o, ()) :=
    .ifSome h .nil
  rwa [List.append_nil] at hfills

end Records

/-- Lists of values. -/
theorem stands_list {s : Shape} {toJson : s.Value → Json} {as : List s.Value}
    (h : ∀ a ∈ as, Stands P s (toJson a) a) : Stands P (.list s) (.array (as.map toJson)) as := by
  refine ⟨decodeItems_eq_ok_iff.2 ?_, .list fun j hj => ?_, .array fun j hj => ?_⟩
  · rw [List.forall₂_map_left_iff]
    exact List.forall₂_same.2 fun a ha => (h a ha).decode
  · obtain ⟨a, ha, rfl⟩ := List.mem_map.1 hj
    exact (h a ha).terse
  · obtain ⟨a, ha, rfl⟩ := List.mem_map.1 hj
    exact (h a ha).numbers

theorem Fills.ifAny {fs : List Field} {values : Values fs} {members : List (String × Json)}
    {s : Shape} {name : String} {toJson : s.Value → Json} {as : List s.Value}
    (h : ∀ a ∈ as, Stands P s (toJson a) a) (rest : Fills (Holds P) fs members values) :
    Fills (Holds P) (listOf name s :: fs) (memberIfAny name toJson as ++ members) (as, values) := by
  cases as with
  | nil => exact .absent rfl rest
  | cons a as => exact .default (stands_list h) rest

theorem stands_text (t : String) : Stands P .text (.string t) t :=
  ⟨rfl, .scalar trivial (fun h => nomatch h), .string t⟩

theorem stands_flag (b : Bool) : Stands P .flag (.bool b) b :=
  ⟨rfl, .scalar trivial (fun h => nomatch h), .bool b⟩

theorem stands_number {x : Float} (hx : P x) : Stands P .number (.float x) x :=
  ⟨rfl, .scalar trivial (fun h => nomatch h), .float hx⟩

theorem stands_byte (n : UInt8) : Stands P .byte (.integer n.toNat) n := by
  have hlt : n.toNat < 256 := n.toNat_lt
  refine ⟨?_, .scalar trivial (fun h => nomatch h), .integer ⟨by omega, by omega⟩⟩
  unfold Schema.decode
  rw [if_pos ⟨by omega, by omega⟩, Int.toNat_natCast]
  exact congrArg _ UInt8.ofNat_toNat

theorem stands_choice {k : ChoiceKind} {name : String} {v : k.Value}
    (h : k.options.lookup name = some v) : Stands P (.choice k) (.string name) v := by
  refine ⟨?_, .scalar trivial (fun h => nomatch h), .string name⟩
  show choose k.options name = _
  rw [choose, h]

end Schema

open Schema

variable {P : Float → Prop}

/-! ## Expressions -/

/-- The numbers in the expression are as required. -/
def Expression.AllNumbers (P : Float → Prop) (e : Expression) : Prop :=
  ∀ x ∈ e.numbers, P x

theorem Expression.stands {e : Expression} (h : e.AllNumbers P) :
    Stands P (.union .expression) e.toJson e := by
  induction e with
  | text value => exact .tagged rfl (.required (stands_text value) .nil) rfl
  | number value =>
    exact .tagged rfl (.required (stands_number (h value List.mem_cons_self)) .nil) rfl
  | symbol name => exact .tagged rfl (.required (stands_text name) .nil) rfl
  | textbox name => exact .tagged rfl (.required (stands_text name) .nil) rfl
  | operation left op right ihl ihr =>
    have hleft := ihl fun x hx => h x (List.mem_append_left _ hx)
    have hright := ihr fun x hx => h x (List.mem_append_right _ hx)
    have hop : Stands P (.choice .operator) (.string op.symbol) op :=
      stands_choice (by cases op <;> rfl)
    exact .tagged rfl (.required hleft (.required hop (.required hright .nil))) rfl

/-! ## Elements -/

theorem Declaration.stands {d : Declaration} (h : d.value.AllNumbers P) :
    Stands P (.record .declaration) d.toJson d := by
  have hproperty : Stands P (.choice .property) (.string d.property.name) d.property :=
    stands_choice (by cases d.property <;> rfl)
  exact .record (by decide) (.required hproperty (.required (Expression.stands h) .nil)) rfl

theorem ne_empty_of_mem_memberIfAny {α : Type} {name : String} {toJson : α → Json} {as : List α}
    {m : String × Json} (hm : m ∈ memberIfAny name toJson as) : m.2 ≠ .array [] := by
  cases as with
  | nil => cases hm
  | cons a as =>
    rw [List.mem_singleton.1 hm]
    exact fun h => nomatch h

theorem ne_empty_of_mem_memberIfSome {name : String} {o : Option String} {m : String × Json}
    (hm : m ∈ memberIfSome name Json.string o) : m.2 ≠ .array [] := by
  cases o with
  | none => cases hm
  | some t =>
    rw [List.mem_singleton.1 hm]
    exact fun h => nomatch h

theorem Attributes.stands {attrs : Attributes} (h : ∀ d ∈ attrs.css, d.value.AllNumbers P) :
    Stands P (.record .attributes) attrs.toJson attrs := by
  have hfills : Fills (Holds P) RecordKind.attributes.layout.fields _
      (attrs.name, attrs.classes, attrs.css, ()) :=
    .ifSome (fun t _ => stands_text t) (.ifAny (fun t _ => stands_text t)
      (.ifAny (fun d hd => Declaration.stands (h d hd)) .nil))
  rw [List.append_nil, ← List.append_assoc] at hfills
  refine .record_of hfills (fun _ m hm => ?_) rfl
  obtain hm | hm := List.mem_append.1 hm
  · obtain hm | hm := List.mem_append.1 hm
    · exact ne_empty_of_mem_memberIfSome hm
    · exact ne_empty_of_mem_memberIfAny hm
  · exact ne_empty_of_mem_memberIfAny hm

theorem Click.stands {click : Click} (h : ∀ x ∈ click.arguments, x.AllNumbers P) :
    Stands P (.record .click) click.toJson click :=
  .record (by decide) (.required (stands_text click.function)
    (.default (stands_list fun x hx => Expression.stands (h x hx)) .nil)) rfl

theorem NavLink.stands {link : NavLink} (h : ∀ x ∈ link.text, x.AllNumbers P) :
    Stands P (.record .navLink) link.toJson link :=
  .record (by decide) (.required (stands_text link.target)
    (.lastIfSome fun x hx => Expression.stands (h x hx))) rfl

namespace Element

/-- The numbers in the element itself are as required. -/
def AllNumbers (P : Float → Prop) (e : Element) : Prop :=
  ∀ x ∈ e.expressions, x.AllNumbers P

theorem AllNumbers.attributes {e : Element} (h : e.AllNumbers P) {attrs : Attributes}
    (hattrs : e.attributes? = some attrs) : Stands P (.record .attributes) attrs.toJson attrs := by
  refine Attributes.stands fun d hd => h d.value (mem_expressions_of_declaration ?_)
  rw [declarations, hattrs]
  exact hd

theorem AllNumbers.content {e : Element} (h : e.AllNumbers P) {x : Expression}
    (hx : x ∈ e.contents) : Stands P (.union .expression) x.toJson x :=
  Expression.stands (h x (mem_expressions_of_contents hx))

theorem listToJson_eq_map (es : List Element) : listToJson es = es.map toJson := by
  induction es with
  | nil => rfl
  | cons e es ih => rw [listToJson, ih, List.map_cons]

theorem stands_elements {es : List Element}
    (h : ∀ e ∈ es, Stands P (.union .element) e.toJson e) :
    Stands P (.list (.union .element)) (.array (listToJson es)) es := by
  rw [listToJson_eq_map]
  exact stands_list h

theorem stands {e : Element} (h : e.AllNumbers P)
    (hcontent : ∀ e' ∈ e.children, Stands P (.union .element) e'.toJson e') :
    Stands P (.union .element) e.toJson e := by
  cases e with
  | div attrs content =>
    exact .tagged rfl (.default (h.attributes rfl) (.default (stands_elements hcontent) .nil)) rfl
  | sectionBlock attrs caption content =>
    exact .tagged rfl (.default (h.attributes rfl)
      (.ifSome (fun x hx => h.content (Option.mem_toList.2 hx))
        (.default (stands_elements hcontent) .nil))) rfl
  | paragraph attrs text =>
    exact .tagged rfl (.default (h.attributes rfl)
      (.required (h.content List.mem_cons_self) .nil)) rfl
  | heading attrs level text =>
    exact .tagged rfl (.default (h.attributes rfl) (.required (stands_byte level)
      (.required (h.content List.mem_cons_self) .nil))) rfl
  | link attrs url text =>
    exact .tagged rfl (.default (h.attributes rfl) (.required (h.content List.mem_cons_self)
      (.lastIfSome fun x hx => h.content (List.mem_cons_of_mem _ (Option.mem_toList.2 hx))))) rfl
  | image attrs path alt =>
    exact .tagged rfl (.default (h.attributes rfl) (.required (h.content List.mem_cons_self)
      (.lastIfSome fun x hx => h.content (List.mem_cons_of_mem _ (Option.mem_toList.2 hx))))) rfl
  | button attrs text onclick =>
    refine .tagged rfl (.default (h.attributes rfl) (.required (h.content List.mem_cons_self)
      (.lastIfSome fun click hclick => Click.stands fun x hx => h x ?_))) rfl
    exact mem_expressions_of_contents (List.mem_cons_of_mem _
      (List.mem_flatMap.2 ⟨click, Option.mem_toList.2 hclick, hx⟩))
  | textbox attrs label placeholder labelAfter =>
    show Stands P _ (tagged "Textbox" (("attrs", attrs.toJson) ::
      (memberIfSome "label" Expression.toJson label ++
        memberIfSome "placeholder" Expression.toJson placeholder ++
        [("label_after", .bool labelAfter)]))) _
    rw [List.append_assoc]
    exact .tagged rfl (.default (h.attributes rfl)
      (.ifSome (fun x hx => h.content (List.mem_append_left _ (Option.mem_toList.2 hx)))
      (.ifSome (fun x hx => h.content (List.mem_append_right _ (Option.mem_toList.2 hx)))
      (.default (stands_flag labelAfter) .nil)))) rfl
  | linebreak => exact .tagged rfl .nil rfl
  | topbar attrs caption home links autoNavLinks =>
    refine .tagged rfl (.default (h.attributes rfl) (.required (h.content List.mem_cons_self)
      (.ifSome (fun x hx => h.content (List.mem_cons_of_mem _
        (List.mem_append_left _ (Option.mem_toList.2 hx))))
      (.default (stands_list fun link hlink => NavLink.stands fun x hx => h x ?_)
      (.default (stands_flag autoNavLinks) .nil))))) rfl
    exact mem_expressions_of_contents (List.mem_cons_of_mem _
      (List.mem_append_right _ (List.mem_filterMap.2 ⟨link, hlink, hx⟩)))
  | footer attrs text =>
    exact .tagged rfl (.default (h.attributes rfl)
      (.required (h.content List.mem_cons_self) .nil)) rfl
  | useComponent component args =>
    exact .tagged rfl (.required (stands_text component)
      (.default (stands_list fun x hx => h.content hx) .nil)) rfl
  | title text => exact .tagged rfl (.required (h.content List.mem_cons_self) .nil) rfl
  | icon path => exact .tagged rfl (.required (h.content List.mem_cons_self) .nil) rfl

mutual

/-- An element stands for itself if the numbers in it and inside it are as required. -/
theorem stands_of_subelements (e : Element) (h : ∀ e' ∈ e.subelements, e'.AllNumbers P) :
    Stands P (.union .element) e.toJson e := by
  refine stands (h e e.mem_subelements_self) ?_
  match e with
  | .div attrs content =>
    exact stands_of_subelementsOf content fun e' he' => h e' (List.mem_cons_of_mem _ he')
  | .sectionBlock attrs caption content =>
    exact stands_of_subelementsOf content fun e' he' => h e' (List.mem_cons_of_mem _ he')
  | .paragraph .. | .heading .. | .link .. | .image .. | .button .. | .textbox .. | .linebreak
  | .topbar .. | .footer .. | .useComponent .. | .title .. | .icon .. =>
    exact fun e' he' => nomatch he'

/-- The elements of a list stand for themselves if the numbers in them and inside them are as
required. -/
theorem stands_of_subelementsOf (es : List Element) (h : ∀ e ∈ subelementsOf es, e.AllNumbers P) :
    ∀ e ∈ es, Stands P (.union .element) e.toJson e := by
  match es with
  | [] => exact fun e he => nomatch he
  | first :: rest =>
    exact List.forall_mem_cons.2
      ⟨stands_of_subelements first fun e he => h e (mem_subelementsOf_cons.2 (.inl he)),
        stands_of_subelementsOf rest fun e he => h e (mem_subelementsOf_cons.2 (.inr he))⟩

end

end Element

/-! ## Documents -/

theorem Parameter.stands (p : Parameter) : Stands P (.record .parameter) p.toJson p := by
  have htype : Stands P (.choice .valueType) (.string p.type.name) p.type :=
    stands_choice (by cases p.type <;> rfl)
  exact .record (by decide) (.required (stands_text p.name) (.required htype .nil)) rfl

theorem Component.stands {c : Component} (h : ∀ e ∈ Element.subelementsOf c.body, e.AllNumbers P) :
    Stands P (.record .component) c.toJson c :=
  .record (by decide) (.required (stands_text c.name) (.default (stands_list fun p _ => p.stands)
    (.default (Element.stands_elements (Element.stands_of_subelementsOf _ h)) .nil))) rfl

theorem Statement.stands {statement : Statement} (h : statement.value.AllNumbers P) :
    Stands P (.union .statement) statement.toJson statement := by
  cases statement with
  | alert value => exact .tagged rfl (.required (Expression.stands h) .nil) rfl
  | const name value =>
    exact .tagged rfl (.required (stands_text name) (.required (Expression.stands h) .nil)) rfl

theorem Function.stands {f : Function} (h : ∀ statement ∈ f.body, statement.value.AllNumbers P) :
    Stands P (.record .function) f.toJson f :=
  .record (by decide) (.required (stands_text f.name)
    (.default (stands_list fun t _ => stands_text t)
    (.default (stands_list fun statement hs => Statement.stands (h statement hs)) .nil))) rfl

theorem StyleRule.stands {rule : StyleRule} (h : ∀ d ∈ rule.properties, d.value.AllNumbers P) :
    Stands P (.record .styleRule) rule.toJson rule := by
  have htarget : Stands P (.choice .styleTarget) (.string rule.target.name) rule.target :=
    stands_choice (by cases rule.target <;> rfl)
  exact .record (by decide) (.required htarget
    (.default (stands_list fun d hd => Declaration.stands (h d hd)) .nil)) rfl

namespace Document

theorem stands {doc : Document} (h : ∀ x ∈ doc.numbers, P x) :
    Stands P (.record .document) doc.toJson doc := by
  have hexpression : ∀ e ∈ doc.expressions, e.AllNumbers P := fun e he x hx =>
    h x (List.mem_flatMap.2 ⟨e, he, hx⟩)
  have helement : ∀ e ∈ doc.elements, e.AllNumbers P := fun e he x hx =>
    hexpression x (List.mem_append_left _ (List.mem_append_left _ (List.mem_flatMap.2 ⟨e, he, hx⟩)))
  have hhead := Element.stands_of_subelementsOf doc.head fun e he =>
    helement e (List.mem_append_left _ (List.mem_append_left _ he))
  have hbody := Element.stands_of_subelementsOf doc.body fun e he =>
    helement e (List.mem_append_left _ (List.mem_append_right _ he))
  have hcomponent : ∀ c ∈ doc.components, Stands P (.record .component) c.toJson c := fun c hc =>
    Component.stands fun e he =>
      helement e (List.mem_append_right _ (List.mem_flatMap.2 ⟨c, hc, he⟩))
  have hstatement : ∀ statement ∈ doc.functions.flatMap (·.body) ++ doc.statements,
      statement.value.AllNumbers P := fun statement hs =>
    hexpression _ (List.mem_append_left _ (List.mem_append_right _ (List.mem_map_of_mem hs)))
  have hfunction : ∀ f ∈ doc.functions, Stands P (.record .function) f.toJson f := fun f hf =>
    Function.stands fun statement hs =>
      hstatement statement (List.mem_append_left _ (List.mem_flatMap.2 ⟨f, hf, hs⟩))
  have hstyle : ∀ rule ∈ doc.styles, Stands P (.record .styleRule) rule.toJson rule :=
    fun rule hr => StyleRule.stands fun d hd => hexpression _ (List.mem_append_right _
      (List.mem_flatMap.2 ⟨rule, hr, List.mem_map_of_mem hd⟩))
  exact .record (by decide) (.default (Element.stands_elements hhead)
    (.default (Element.stands_elements hbody)
    (.default (stands_list hcomponent) (.default (stands_list hfunction)
    (.default (stands_list fun statement hs =>
      Statement.stands (hstatement statement (List.mem_append_right _ hs)))
    (.default (stands_list hstyle) .nil)))))) rfl

end Document

/-! ## Loading -/

/-- A reader that reads a value back makes it of the whole text, from memory or from a stream that
does not fail. -/
theorem Json.Reader.run_render {α : Type} {r : Json.Reader α} {j : Json} {a : α}
    (h : ReadsBack r j a) {origin : Json.Origin} (horigin : origin.IsSteady) :
    r.run origin j.render.toUTF8.toList = .ok a := by
  have hends : Ends [] := fun c hc => by cases hc
  have hfinish : finish.Reads [] [] () :=
    Reads.gap_bind hends.starts hends.noGap (reads_pure _ _)
  have hwhole : (do
      let a ← r
      finish
      return a : Json.Reader α).Reads j.chars [] a :=
    Reads.bind_last (h.reads hends) (Reads.bind_last hfinish (reads_pure a []))
  have hbytes : j.render.toUTF8.toList = Json.bytes j.chars := Json.toList_toUTF8 j.chars
  obtain ⟨c, hrun, -⟩ := hwhole (.ofBytes origin j.render.toUTF8.toList) horigin
    (hbytes.trans (List.append_nil _).symm)
  exact congrArg Prod.fst hrun

theorem Schema.load_render {s : Shape} {j : Json} {v : s.Value} (h : Legible Json.levelLimit s j v)
    {origin : Json.Origin} (horigin : origin.IsSteady) :
    Schema.load s origin j.render.toUTF8.toList = .ok v := by
  unfold Schema.load
  rw [Json.Reader.run_render h.readsBack horigin]

namespace Document

/-- The value that a document is written as stands for the document. -/
theorem decode_toJson (doc : Document) : decode (.record .document) doc.toJson = .ok doc :=
  (stands (P := fun _ => True) fun _ _ => trivial).decode

/-- A document stays as it is if its numbers do, and only then. -/
theorem mapNumbers_eq_self_iff {f : Float → Float} {doc : Document} :
    doc.mapNumbers f = doc ↔ ∀ x ∈ doc.numbers, f x = x := by
  refine ⟨fun h => ?_, fun h => ?_⟩
  · have hmap : doc.numbers.map f = doc.numbers.map id := by
      rw [← numbers_mapNumbers, h, List.map_id]
    exact List.map_inj_left.1 hmap
  · have hjson : (doc.mapNumbers f).toJson = doc.toJson :=
      (doc.mapFloats_toJson f).symm.trans (stands h).numbers.mapFloats_eq_self
    have hdecode := (doc.mapNumbers f).decode_toJson
    rw [hjson, decode_toJson] at hdecode
    exact (Except.ok.inj hdecode).symm

theorem legible_toJson {doc : Document} (hfinite : ∀ x ∈ doc.numbers, x.isFinite)
    (hnesting : doc.toJson.nesting < 128) :
    Legible Json.levelLimit (.record .document) doc.toJson (doc.mapNumbers Json.rereadFloat) := by
  have hdoc := stands hfinite
  refine ⟨hdoc.numbers.readable (Nat.le_of_lt_succ hnesting), hdoc.terse.plain, ?_⟩
  rw [Json.reread, mapFloats_toJson]
  exact decode_toJson _

/-- **Documents are loaded back.** A document with finite numbers, whose JSON opens fewer than 128
levels, is loaded from the JSON it is written as, and from all that this JSON can be edited into,
but for the precision of its numbers: each of them is what its text comes to in doubles. The
document is the same one exactly if these are the numbers themselves, as they are if they have short
texts. -/
theorem load_edited (doc : Document) (hfinite : ∀ x ∈ doc.numbers, x.isFinite)
    (hnesting : doc.toJson.nesting < 128) :
    Terse (.record .document) doc.toJson ∧
      (∀ j, Relation.ReflTransGen (Edit (.record .document)) doc.toJson j →
        ofText j.render = .ok (doc.mapNumbers Json.rereadFloat) ∧
        ofStream j.render.toUTF8.toList none = .ok (doc.mapNumbers Json.rereadFloat)) ∧
      (doc.mapNumbers Json.rereadFloat = doc ↔ ∀ x ∈ doc.numbers, Json.rereadFloat x = x) ∧
      ∀ x, Json.IsShort x → Json.rereadFloat x = x := by
  refine ⟨(stands hfinite).terse, fun j hj => ?_, mapNumbers_eq_self_iff,
    fun x => Json.rereadFloat_eq_self⟩
  have hedited := legible_of_edits hj (legible_toJson hfinite hnesting)
  exact ⟨load_render hedited (fun _ h => nomatch h), load_render hedited (fun _ h => nomatch h)⟩

/-- A page with a price in a section that has no caption. -/
def offer (price : Float) : Document where
  head := [.title (.text "Offer")]
  body :=
    [.sectionBlock ⟨some "top", [], []⟩ none
      [.paragraph .none (.operation (.text "from ") .add (.number price))]]
  components := []
  functions := []
  statements := []
  styles := []

/-- The JSON of the offer, with the paragraph written as given. -/
def offerJson (paragraph : Json) : Json :=
  .object [("head", .array [(Element.title (.text "Offer")).toJson]),
    ("body", .array [tagged "Section" [("attrs", .object [("name", .string "top")]),
      ("content", .array [paragraph])]]),
    ("components", .array []), ("functions", .array []), ("statements", .array []),
    ("styles", .array [])]

theorem offerJson_edit {j j' : Json} (h : Edit (.union .element) j j') :
    Edit (.record .document) (offerJson j) (offerJson j') := by
  have hsection : Edit (.union .element)
      (tagged "Section" [("attrs", .object [("name", .string "top")]), ("content", .array [j])])
      (tagged "Section" [("attrs", .object [("name", .string "top")]), ("content", .array [j'])]) :=
    @Edit.member _ [_, _] [] _ _ _ _ _ (.union List.mem_cons_self rfl) rfl
      (@Edit.item _ [] [] _ _ h)
  exact @Edit.member _ [_] [_, _, _, _] _ _ _ _ _ (.record _ _) rfl
    (@Edit.item _ [] [] _ _ hsection)

/-- The text of this price comes to the double above it. -/
theorem rereadFloat_price : Json.rereadFloat 51.248178375505404 = 51.24817837550541 := by
  decide +kernel

theorem mapNumbers_offer (price : Float) (f : Float → Float) :
    (offer price).mapNumbers f = offer (f price) :=
  rfl

/-- The tag of the paragraph stands last, behind a member that means nothing. The price has more
digits than can be read exactly; a price with few digits stays. -/
theorem load_edited_offer :
    (∀ x ∈ (offer 51.248178375505404).numbers, x.isFinite) ∧
      (offer 51.248178375505404).toJson.nesting < 128 ∧
      ofText (offerJson (.object [("lang", .null), ("attrs", .object []),
        ("text", (Expression.operation (.text "from ") .add (.number 51.248178375505404)).toJson),
        ("type", .string "Paragraph")])).render = .ok (offer 51.24817837550541) ∧
      ofText (offer 1.5).toJson.render = .ok (offer 1.5) := by
  have hfinite : ∀ x ∈ (offer 51.248178375505404).numbers, x.isFinite := by decide
  have hnesting : (offer 51.248178375505404).toJson.nesting < 128 := by decide
  have hadd : ∀ members, Edit (.union .element) (tagged "Paragraph" members)
      (.object (("lang", .null) :: ("type", .string "Paragraph") :: members)) := fun members =>
    @Edit.add _ [] _ _ _ _ (.union List.mem_cons_self rfl) (by decide) trivial
  have hmove : ∀ members, Edit (.union .element)
      (.object (("lang", .null) :: ("type", .string "Paragraph") :: members))
      (.object (("lang", .null) :: (members ++ [("type", .string "Paragraph")]))) := fun members =>
    .reorder (.cons _ (List.perm_append_singleton _ _).symm)
  obtain ⟨-, hload, -⟩ := load_edited _ hfinite hnesting
  have hedited := (hload _ (.tail (.single (offerJson_edit (hadd _)))
    (offerJson_edit (hmove [_, _])))).1
  rw [mapNumbers_offer, rereadFloat_price] at hedited
  obtain ⟨-, hshort, hsame, hstays⟩ := load_edited (offer 1.5) (by decide) (by decide)
  have hsteady : ∀ x ∈ (offer 1.5).numbers, Json.rereadFloat x = x :=
    List.forall_mem_singleton.2 (hstays 1.5 (by decide +kernel))
  exact ⟨hfinite, hnesting, hedited, hsame.2 hsteady ▸ (hshort _ .refl).1⟩

/-- **A finite number need not come back**: the offer with this price is loaded as another one. -/
theorem load_offer_ne :
    (∀ x ∈ (offer 51.248178375505404).numbers, x.isFinite) ∧
      (offer 51.248178375505404).toJson.nesting < 128 ∧
      ofText (offer 51.248178375505404).toJson.render ≠ .ok (offer 51.248178375505404) := by
  have hfinite : ∀ x ∈ (offer 51.248178375505404).numbers, x.isFinite := by decide
  have hnesting : (offer 51.248178375505404).toJson.nesting < 128 := by decide
  refine ⟨hfinite, hnesting, fun h => ?_⟩
  have hload : ofText (offer 51.248178375505404).toJson.render = _ :=
    load_render (legible_toJson hfinite hnesting) (fun _ h => nomatch h)
  rw [hload] at h
  have hprice := mapNumbers_eq_self_iff.1 (Except.ok.inj h) _ List.mem_cons_self
  rw [rereadFloat_price] at hprice
  revert hprice
  decide +kernel

end Document

end Pagewright
