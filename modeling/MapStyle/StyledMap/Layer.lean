import MapStyle.Project.Basic
import MapStyle.StyledMap.Stylesheets
/-!
Compiling one layer. What goes wrong with it is kept with the layer.
-/
namespace MapStyle

/-- What all layers of a map are compiled with. -/
structure MapContext where
  sheets : Stylesheets
  renderer : Renderer
  interactivityLayer : Option String

namespace MapContext

def styling (context : MapContext) : Context := ⟨context.sheets.scope, context.renderer, true⟩

end MapContext

namespace MapLayer

def coordinateSystem (renderer : Renderer) (srs : String) : String :=
  (renderer.coordinateSystem srs).toOption.getD srs

def datasourceOf (renderer : Renderer) (given : Parameters) : Parameters :=
  if given.entries.isEmpty then given else (renderer.datasource given).toOption.getD given

def bare (context : MapContext) (layer : ProjectLayer) : MapLayer where
  name := layer.name
  classes := layer.classes
  srs := layer.srs.map (coordinateSystem context.renderer)
  datasource := datasourceOf context.renderer layer.parameters
  minZoom := layer.settings.minZoom
  maxZoom := layer.settings.maxZoom
  enabled := layer.isEnabled && context.interactivityLayer != some layer.name
  styles := []
  error := none

def definitionsFor (context : MapContext) (tree : LayerTree) : List Definition :=
  if tree.isGroup then []
  else Definition.applicable context.sheets.definitions tree.value.name tree.value.classNames

def failure (layer : String) (error : StyleError) : String := "layer " ++ quoted layer ++ ": " ++ error.message

def compile (context : MapContext) (tree : LayerTree) : Task MapLayer := do
  let layer := bare context tree.value
  match ← ExceptT.run (FeatureStyle.ofLayer context.styling layer.name (definitionsFor context tree)) with
  | .ok styles => return { layer with styles }
  | .error error => return { layer with error := some (failure layer.name error) }

end MapLayer
end MapStyle
