import Pagewright.Document.Store
import Pagewright.Proofs.Json.Values
import Pagewright.Proofs.Translation

/-!
# The numbers of a document

Which numbers stand in a document, and the document in which each of them is replaced by another.
Replacing them is the same before the document is written as JSON and after it.
-/

namespace Pagewright

/-! ## Where the numbers stand -/

namespace Expression

/-- The numbers in an expression. -/
def numbers : Expression → List Float
  | number value => [value]
  | operation left _ right => left.numbers ++ right.numbers
  | text _ | symbol _ | textbox _ => []

/-- The numbers in the expression are finite. -/
def IsFinite (e : Expression) : Prop :=
  ∀ x ∈ e.numbers, x.isFinite

/-- The expression with each of its numbers replaced. -/
def mapNumbers (f : Float → Float) : Expression → Expression
  | text value => text value
  | number value => number (f value)
  | symbol name => symbol name
  | textbox name => textbox name
  | operation left op right => operation (left.mapNumbers f) op (right.mapNumbers f)

theorem numbers_mapNumbers (f : Float → Float) (e : Expression) :
    (e.mapNumbers f).numbers = e.numbers.map f := by
  induction e with
  | text | number | symbol | textbox => rfl
  | operation left op right ihl ihr => rw [mapNumbers, numbers, ihl, ihr, numbers, List.map_append]

end Expression

namespace Document

/-- The numbers of the document. -/
def numbers (doc : Document) : List Float :=
  doc.expressions.flatMap Expression.numbers

/-- **The document with each of its numbers replaced.** -/
def mapNumbers (f : Float → Float) (doc : Document) : Document :=
  doc.translate (Expression.mapNumbers f)

/-- The numbers of the document afterwards, each in the place of the one it replaces. -/
theorem numbers_mapNumbers (f : Float → Float) (doc : Document) :
    (doc.mapNumbers f).numbers = doc.numbers.map f := by
  rw [numbers, mapNumbers, expressions_translate, List.flatMap_map, numbers, List.map_flatMap]
  simp only [Expression.numbers_mapNumbers]

end Document

/-! ## Replacing them in the JSON -/

section Written

open Json (mapFloats mapFloatsOfMembers mapFloatsOfItems)

variable (f : Float → Float)

section Members

variable {α : Type} {toJson : α → Json} {g : α → α}

/-- A list that is written item by item. -/
theorem mapFloatsOfItems_map (h : ∀ a, (toJson a).mapFloats f = toJson (g a)) (as : List α) :
    mapFloatsOfItems f (as.map toJson) = (as.map g).map toJson := by
  rw [Json.mapFloatsOfItems_eq, List.map_map, List.map_map]
  exact List.map_congr_left fun a _ => h a

theorem mapFloatsOfMembers_ifSome (h : ∀ a, (toJson a).mapFloats f = toJson (g a)) (name : String)
    (o : Option α) :
    mapFloatsOfMembers f (memberIfSome name toJson o) = memberIfSome name toJson (o.map g) := by
  cases o with
  | none => rfl
  | some a => exact congrArg (fun j => [(name, j)]) (h a)

theorem mapFloatsOfMembers_ifAny (h : ∀ a, (toJson a).mapFloats f = toJson (g a)) (name : String)
    (as : List α) :
    mapFloatsOfMembers f (memberIfAny name toJson as) = memberIfAny name toJson (as.map g) := by
  cases as with
  | nil => rfl
  | cons a as =>
    exact congrArg (fun items => [(name, Json.array items)]) (mapFloatsOfItems_map f h (a :: as))

end Members

theorem mapFloatsOfMembers_append (ms ms' : List (String × Json)) :
    mapFloatsOfMembers f (ms ++ ms') = mapFloatsOfMembers f ms ++ mapFloatsOfMembers f ms' := by
  rw [Json.mapFloatsOfMembers_eq, List.map_append, ← Json.mapFloatsOfMembers_eq,
    ← Json.mapFloatsOfMembers_eq]

theorem mapFloats_string (text : String) : (Json.string text).mapFloats f = .string (id text) :=
  rfl

theorem mapFloats_tagged (tag : String) (members : List (String × Json)) :
    (tagged tag members).mapFloats f = tagged tag (mapFloatsOfMembers f members) :=
  rfl

theorem Expression.mapFloats_toJson (e : Expression) :
    e.toJson.mapFloats f = (e.mapNumbers f).toJson := by
  induction e with
  | text | number | symbol | textbox => rfl
  | operation left op right ihl ihr =>
    simp only [toJson, mapNumbers, mapFloats_tagged, mapFloatsOfMembers, mapFloats, ihl, ihr]

theorem Declaration.mapFloats_toJson (d : Declaration) :
    d.toJson.mapFloats f = (d.translate (Expression.mapNumbers f)).toJson := by
  simp only [toJson, translate, mapFloats, mapFloatsOfMembers, Expression.mapFloats_toJson]

theorem Attributes.mapFloats_toJson (attrs : Attributes) :
    attrs.toJson.mapFloats f = (attrs.translate (Expression.mapNumbers f)).toJson := by
  simp only [toJson, translate, mapFloats, mapFloatsOfMembers_append,
    mapFloatsOfMembers_ifSome f (mapFloats_string f),
    mapFloatsOfMembers_ifAny f (mapFloats_string f),
    mapFloatsOfMembers_ifAny f (Declaration.mapFloats_toJson f), Option.map_id, List.map_id]
  rfl

theorem Click.mapFloats_toJson (click : Click) :
    click.toJson.mapFloats f = (click.translate (Expression.mapNumbers f)).toJson := by
  simp only [toJson, translate, mapFloats, mapFloatsOfMembers,
    mapFloatsOfItems_map f (Expression.mapFloats_toJson f)]

theorem NavLink.mapFloats_toJson (link : NavLink) :
    link.toJson.mapFloats f = (link.translate (Expression.mapNumbers f)).toJson := by
  simp only [toJson, translate, mapFloats, mapFloatsOfMembers,
    mapFloatsOfMembers_ifSome f (Expression.mapFloats_toJson f)]

namespace Element

mutual

theorem mapFloats_toJson (e : Element) :
    e.toJson.mapFloats f = (e.translate (Expression.mapNumbers f)).toJson := by
  have hsome := mapFloatsOfMembers_ifSome f (Expression.mapFloats_toJson f)
  match e with
  | .div attrs content =>
    simp only [toJson, translate, mapFloats_tagged, mapFloatsOfMembers, mapFloats,
      Attributes.mapFloats_toJson, mapFloatsOfItems_listToJson content]
  | .sectionBlock attrs caption content =>
    simp only [toJson, translate, mapFloats_tagged, List.cons_append, mapFloatsOfMembers,
      mapFloatsOfMembers_append, mapFloats, Attributes.mapFloats_toJson, hsome,
      mapFloatsOfItems_listToJson content]
  | .paragraph .. | .heading .. | .linebreak | .footer .. | .title .. | .icon .. =>
    simp only [toJson, translate, mapFloats_tagged, mapFloatsOfMembers, mapFloats,
      Attributes.mapFloats_toJson, Expression.mapFloats_toJson]
  | .link .. | .image .. =>
    simp only [toJson, translate, mapFloats_tagged, mapFloatsOfMembers,
      Attributes.mapFloats_toJson, Expression.mapFloats_toJson, hsome]
  | .button attrs text onclick =>
    simp only [toJson, translate, mapFloats_tagged, mapFloatsOfMembers,
      Attributes.mapFloats_toJson, Expression.mapFloats_toJson,
      mapFloatsOfMembers_ifSome f (Click.mapFloats_toJson f)]
  | .textbox .. =>
    simp only [toJson, translate, mapFloats_tagged, List.cons_append, mapFloatsOfMembers,
      mapFloatsOfMembers_append, mapFloats, Attributes.mapFloats_toJson, hsome]
  | .topbar .. =>
    simp only [toJson, translate, mapFloats_tagged, List.cons_append, mapFloatsOfMembers,
      mapFloatsOfMembers_append, mapFloats, Attributes.mapFloats_toJson,
      Expression.mapFloats_toJson, hsome, mapFloatsOfItems_map f (NavLink.mapFloats_toJson f)]
  | .useComponent component args =>
    simp only [toJson, translate, mapFloats_tagged, mapFloatsOfMembers, mapFloats,
      mapFloatsOfItems_map f (Expression.mapFloats_toJson f)]

theorem mapFloatsOfItems_listToJson (es : List Element) :
    mapFloatsOfItems f (listToJson es)
      = listToJson (translateAll (Expression.mapNumbers f) es) := by
  match es with
  | [] => rfl
  | e :: rest =>
    rw [listToJson, mapFloatsOfItems, mapFloats_toJson e, mapFloatsOfItems_listToJson rest]
    rfl

end

end Element

theorem Parameter.mapFloats_toJson (p : Parameter) : p.toJson.mapFloats f = (id p).toJson :=
  rfl

theorem Component.mapFloats_toJson (c : Component) :
    c.toJson.mapFloats f = (c.translate (Expression.mapNumbers f)).toJson := by
  simp only [toJson, translate, mapFloats, mapFloatsOfMembers, List.map_id,
    mapFloatsOfItems_map f (Parameter.mapFloats_toJson f), Element.mapFloatsOfItems_listToJson]

theorem Statement.mapFloats_toJson (statement : Statement) :
    statement.toJson.mapFloats f = (statement.translate (Expression.mapNumbers f)).toJson := by
  cases statement <;>
    simp only [toJson, translate, mapFloats_tagged, mapFloatsOfMembers, mapFloats,
      Expression.mapFloats_toJson]

theorem Function.mapFloats_toJson (function : Function) :
    function.toJson.mapFloats f = (function.translate (Expression.mapNumbers f)).toJson := by
  simp only [toJson, translate, mapFloats, mapFloatsOfMembers,
    mapFloatsOfItems_map f (mapFloats_string f),
    mapFloatsOfItems_map f (Statement.mapFloats_toJson f), List.map_id]

theorem StyleRule.mapFloats_toJson (rule : StyleRule) :
    rule.toJson.mapFloats f = (rule.translate (Expression.mapNumbers f)).toJson := by
  simp only [toJson, translate, mapFloats, mapFloatsOfMembers,
    mapFloatsOfItems_map f (Declaration.mapFloats_toJson f)]

/-- **Replacing the numbers of a document replaces the decimals of its JSON**, and nothing else. -/
theorem Document.mapFloats_toJson (doc : Document) :
    doc.toJson.mapFloats f = (doc.mapNumbers f).toJson := by
  simp only [toJson, mapNumbers, translate, mapFloats, mapFloatsOfMembers,
    Element.mapFloatsOfItems_listToJson, mapFloatsOfItems_map f (Component.mapFloats_toJson f),
    mapFloatsOfItems_map f (Function.mapFloats_toJson f),
    mapFloatsOfItems_map f (Statement.mapFloats_toJson f),
    mapFloatsOfItems_map f (StyleRule.mapFloats_toJson f)]

end Written

end Pagewright
