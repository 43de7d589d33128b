import MapStyle.Filter.Set
import MapStyle.Number.Decimal
import MapStyle.Sheet.Basic
/-!
Selectors with their variables resolved, and how specific they are.
-/
namespace MapStyle

/-- The weight of a selector; the fields are compared from the first to the last, and more is more specific. -/
structure Specificity where
  ids : Nat
  classes : Nat
  conditions : Nat
  index : Nat
deriving DecidableEq

namespace Specificity

def fields (s : Specificity) : List Nat := [s.ids, s.classes, s.conditions, s.index]

def fieldsLe : List Nat → List Nat → Bool
  | a :: as, b :: bs => a < b || (a == b && fieldsLe as bs)
  | _, _ => true

def atLeast (a b : Specificity) : Bool := fieldsLe b.fields a.fields

end Specificity

/-- A resolved selector; `conditions` counts its filters and zoom predicates as written. -/
structure Selector where
  elements : List Element
  filters : FilterSet
  zoom : Zoom
  attachment : Option String
  conditions : Nat
  index : Nat
  place : Place

namespace Selector

def ofPlace (place : Place) (index : Nat) : Selector := ⟨[], FilterSet.empty, Zoom.all, none, 0, index, place⟩

def joinAttachment : Option String → Option String → Option String
  | some outer, some inner => some (outer ++ "/" ++ inner)
  | some outer, none => some outer
  | none, inner => inner

def clamp (low high value : Int) : Int := if value < low then low else if high < value then high else value

def zoomLevel? (text : String) : Option Int :=
  ((Number.read? (Text.trim text)).bind Number.toInt?).map (clamp (-twoTo 63) (twoTo 63 - 1))

def resolveZoom (scope : Scope) (op : Comparison) (value : Expression) : Except StyleError Zoom := do
  let text ← scope.evaluate value
  match zoomLevel? text with
  | none => .error (.flawed (.zoomNotWhole text) value.place)
  | some level => Zoom.ofComparison op level value.place

def addPart? (scope : Scope) (selector : Selector) : SelectorPart → Except StyleError (Option Selector)
  | .element element => .ok (some { selector with elements := selector.elements ++ [element] })
  | .attachment name => .ok (some { selector with attachment := joinAttachment selector.attachment (some name) })
  | .filter key op value => do
    let filter ← Filter.resolve key op value scope
    return (selector.filters.conjoin? filter).map fun filters =>
      { selector with filters, conditions := selector.conditions + 1 }
  | .zoom op value => do
    let zoom ← resolveZoom scope op value
    return some { selector with zoom := selector.zoom.inter zoom, conditions := selector.conditions + 1 }

def addParts? (scope : Scope) (selector : Selector) : List SelectorPart → Except StyleError (Option Selector)
  | [] => .ok (some selector)
  | part :: rest => do
    match ← selector.addPart? scope part with
    | some selector => addParts? scope selector rest
    | none => return none

def resolve? (scope : Scope) (written : WrittenSelector) : Except StyleError (Option Selector) :=
  addParts? scope (ofPlace written.place written.index) written.parts

def specificity (selector : Selector) : Specificity where
  ids := selector.elements.countP fun
    | .id _ => true
    | _ => false
  classes := selector.elements.countP fun
    | .cls _ => true
    | _ => false
  conditions := selector.conditions
  index := selector.index

def text (selector : Selector) : String :=
  String.join (selector.elements.map Element.text) ++
    (if selector.filters.isEmpty then "" else " " ++ selector.filters.text) ++
    (match selector.attachment with
    | some name => "::" ++ name
    | none => "")

def join (parent child : Selector) (filters : FilterSet) : Selector where
  elements := parent.elements ++ child.elements
  filters := filters
  zoom := parent.zoom.inter child.zoom
  attachment := joinAttachment parent.attachment child.attachment
  conditions := parent.conditions + child.conditions
  index := child.index
  place := child.place

def repeats (parent child : Selector) : Bool :=
  parent.zoom == parent.zoom.inter child.zoom && parent.attachment == child.attachment &&
    parent.elements == child.elements

/-- A nested selector with its parent's filters, levels, elements and attachment; none when the filters contradict each
other. One that says no more than its parent is the parent. -/
def combine? (parent child : Selector) : Option Selector :=
  match parent.filters.merge child.filters with
  | .conflict => none
  | .merged filters => some (parent.join child filters)
  | .unchanged => some (if parent.repeats child then parent else parent.join child parent.filters)

end Selector
end MapStyle
