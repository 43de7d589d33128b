import MapStyle.Text.Split
import MapStyle.Value.Basic
import MapStyle.Zoom
/-!
Declarations: a property with its value, perhaps for a named instance of its symbolizer.
-/
namespace MapStyle

def defaultInstance : String := "__default__"

/-- `instance/property: value`, visible at the levels of `zoom`; `index` is its position in the source. -/
structure Declaration where
  property : String
  instanceName : String
  value : Expression
  index : Nat
  place : Place
  zoom : Zoom

namespace Declaration

def splitName (fullName : String) : String × String :=
  match (Text.splitAt '/' fullName).reverse with
  | property :: instanceName :: _ => (property, instanceName)
  | _ => (fullName, defaultInstance)

def ofName (fullName : String) (value : Expression) (index : Nat) (place : Place) : Declaration :=
  let (property, instanceName) := splitName fullName
  ⟨property, instanceName, value, index, place, Zoom.all⟩

def id (declaration : Declaration) : String :=
  declaration.zoom.text ++ "#" ++ declaration.instanceName ++ "#" ++ declaration.property

def restrict (declaration : Declaration) (zoom : Zoom) : Declaration :=
  { declaration with zoom := declaration.zoom.inter zoom }

end Declaration
end MapStyle
