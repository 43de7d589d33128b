import MapStyle.Selector
/-!
Definitions: a selector's conditions with the declarations that they govern.
-/
namespace MapStyle

def defaultAttachment : String := "__default__"

structure Definition where
  elements : List Element
  filters : FilterSet
  zoom : Zoom
  attachment : String
  specificity : Specificity
  place : Place
  declarations : List Declaration

namespace Definition

/-- Binds declarations to a selector, whose levels restrict theirs. -/
def ofSelector (selector : Selector) (declarations : List Declaration) : Definition where
  elements := selector.elements
  filters := selector.filters
  zoom := selector.zoom
  attachment := selector.attachment.getD defaultAttachment
  specificity := selector.specificity
  place := selector.place
  declarations := declarations.map fun declaration => declaration.restrict selector.zoom

def declares (definition : Definition) (id : String) : Bool :=
  definition.declarations.any fun declaration => declaration.id == id

def addDeclaration (definition : Definition) (declaration : Declaration) : Definition :=
  if definition.declares declaration.id then definition
  else { definition with declarations := definition.declarations ++ [declaration] }

def addDeclarations (definition : Definition) (declarations : List Declaration) : Definition :=
  declarations.foldl addDeclaration definition

def appliesTo (definition : Definition) (layer : String) (classes : List String) : Bool :=
  definition.elements.all fun element => element.appliesTo layer classes

def isNamed (definition : Definition) (name : String) : Bool := definition.elements == [.bare name]

def minIndex? (definition : Definition) : Option Nat := (definition.declarations.map Declaration.index).min?

def applicable (definitions : List Definition) (layer : String) (classes : List String) : List Definition :=
  definitions.filter fun definition => definition.appliesTo layer classes

/-- In cascade order: the most specific first, equally specific ones in their order. -/
def cascade (definitions : List Definition) : List Definition :=
  definitions.mergeSort fun a b => a.specificity.atLeast b.specificity

end Definition
end MapStyle
