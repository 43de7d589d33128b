import MapStyle.Color.Notation
import MapStyle.Document.Basic
import MapStyle.FeatureStyle.Basic
import MapStyle.Project.Tree
/-!
Styled maps: what a project is compiled to.
-/
namespace MapStyle

/-- The properties of the map itself, sorted by name. -/
structure MapProperties where
  entries : List (String × String)

namespace MapProperties

def ofList (properties : List (String × String)) : MapProperties := ⟨Entries.firstOfEach properties⟩

def get? (properties : MapProperties) (name : String) : Option String := properties.entries.lookup name

def size (properties : MapProperties) : Nat := properties.entries.length

def backgroundColor? (properties : MapProperties) : Option Color :=
  (properties.get? "background-color").bind Color.read?

def bufferSize? (properties : MapProperties) : Option Nat :=
  (properties.get? "buffer-size").bind fun value => readWord32? (Text.trim value).toList

def fontDirectory? (properties : MapProperties) : Option String :=
  (properties.get? "font-directory").map (Text.strip Text.isQuote)

end MapProperties

/-- A layer with its styles; `error` tells why there are none when compiling it failed. -/
structure MapLayer where
  name : String
  classes : String
  srs : Option String
  datasource : Parameters
  minZoom : Option Nat
  maxZoom : Option Nat
  enabled : Bool
  styles : List FeatureStyle
  error : Option String

structure StyledMap where
  name : String
  srs : Option String
  properties : MapProperties
  fontSets : List FontSet
  layers : List (Tree MapLayer)

def StyledMap.layer? (map : StyledMap) (name : String) : Option MapLayer :=
  ((Tree.walkAll map.layers).map Tree.value).find? fun layer => layer.name == name

end MapStyle
