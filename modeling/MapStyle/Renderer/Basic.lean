import MapStyle.Filter.Basic
import MapStyle.Renderer.Vocabulary
/-!
What a renderer has to offer the compiler, and what can be wrong with a value that it is given.
-/
namespace MapStyle

structure Property where
  name : String
  value : String
  place : Place

/-- A failure of a renderer; the compiler knows where it happened. -/
inductive RenderError where
  | invalidValue (property value reason : String)
  | unknownDatasource (kind : String)
  | unsupported (operation : String)
deriving DecidableEq

namespace RenderError

def message : RenderError → String
  | invalidValue property value reason =>
    "invalid value " ++ quoted value ++ " for " ++ quoted property ++ ": " ++ reason
  | unknownDatasource kind => "unknown datasource type " ++ quoted kind
  | unsupported operation => "operation " ++ quoted operation ++ " is not implemented"

def locate (place : Place) : RenderError → StyleError
  | invalidValue property value reason => .invalidValue property value reason place
  | unknownDatasource kind => .invalidValue "type" kind "unknown datasource type" place
  | unsupported operation => .unsupported operation

def locateResult {α : Type} (place : Place) : Except RenderError α → Except StyleError α
  | .ok a => .ok a
  | .error error => .error (error.locate place)

end RenderError

/-- Named texts, each name once, such as the parameters of a data source. -/
structure Parameters where
  entries : List (String × String)

namespace Parameters

def get? (parameters : Parameters) (name : String) : Option String := parameters.entries.lookup name

def insert (parameters : Parameters) (name value : String) : Parameters :=
  if (parameters.get? name).isSome then
    ⟨parameters.entries.map fun entry => if entry.1 == name then (name, value) else entry⟩
  else ⟨parameters.entries ++ [(name, value)]⟩

def insertNew (parameters : Parameters) (name value : String) : Parameters :=
  if (parameters.get? name).isSome then parameters else parameters.insert name value

def mapValues (parameters : Parameters) (f : String → String) : Parameters :=
  ⟨parameters.entries.map fun entry => (entry.1, f entry.2)⟩

end Parameters

structure Renderer where
  name : String
  vocabulary : Vocabulary
  symbolizer : Kind → List Property → Except RenderError Symbolizer
  filterText : Filter → Except RenderError String
  imageFilters : String → Except RenderError (List String)
  datasource : Parameters → Except RenderError Parameters
  coordinateSystem : String → Except RenderError String

namespace Renderer

def target? (renderer : Renderer) (property : String) : Option Target := renderer.vocabulary.target? property

def namesFonts (property : String) : Bool := property == "text-face-name" || property == "shield-face-name"

end Renderer
end MapStyle
