import MapStyle.Project.Files
import MapStyle.Renderer.Named
import MapStyle.StyledMap.Layer
import MapStyle.Workers
/-!
Compiling projects: one layer after the other or by several workers, and then what concerns the map as a whole.
-/
namespace MapStyle

/-- How projects are compiled. Stylesheets are looked up in `directory`, by default where the project is. -/
structure Config where
  threads : Nat
  renderer : String
  directory : Option String

namespace Config

def default : Config := ⟨1, "mapnik", none⟩

def withThreads (config : Config) (threads : Nat) : Config := { config with threads := max threads 1 }

end Config

namespace StyledMap

def contextOf (renderer : Renderer) (project : Project) (sources : List Source) : MapContext :=
  ⟨Stylesheets.load sources, renderer, project.interactivityLayer?⟩

def sharedAtFirst (context : MapContext) : Shared := ⟨ValueCache.empty, context.sheets.fontSets⟩

def compileLayers (context : MapContext) : List LayerTree → Shared → List MapLayer × Shared
  | [], shared => ([], shared)
  | tree :: rest, shared =>
    let (layer, shared) := (MapLayer.compile context tree).run context.sheets.scope shared
    let (layers, shared) := compileLayers context rest shared
    (layer :: layers, shared)

/-- The map with its layers, given in the order of `Tree.walkAll`. -/
def assemble (context : MapContext) (project : Project) (layers : List MapLayer) (shared : Shared) : StyledMap :=
  let properties := context.sheets.mapProperties
  { name := project.name
    srs := ((properties.get? "srs").orElse fun _ => project.srs).map (MapLayer.coordinateSystem context.renderer)
    properties
    fontSets := shared.fonts.list
    layers := (Tree.assemble project.layers layers).1 }

def ofSources (renderer : Renderer) (project : Project) (sources : List Source) : StyledMap :=
  let context := contextOf renderer project sources
  let (layers, shared) := compileLayers context (Tree.walkAll project.layers) (sharedAtFirst context)
  assemble context project layers shared

def workersAfter (context : MapContext) (project : Project) (threads : Nat) (schedule : List Nat) : Pool MapLayer :=
  let layers := Tree.walkAll project.layers
  (Pool.start threads layers.length (sharedAtFirst context)).run context.sheets.scope layers
    (fun _ tree => MapLayer.compile context tree) schedule

def ofSchedule? (renderer : Renderer) (project : Project) (sources : List Source) (threads : Nat)
    (schedule : List Nat) : Option StyledMap :=
  let context := contextOf renderer project sources
  let pool := workersAfter context project threads schedule
  if pool.isFinished then some (assemble context project pool.results pool.shared) else none

/-- What is reported while the layers of a project are compiled: after each, how many of how many are done. -/
def progress (project : Project) : List (Nat × Nat) :=
  (List.range project.layerCount).map fun before => (before + 1, project.layerCount)

def sourceOf? (files : Files) (directory : String) : StylesheetSource → Option Source
  | .file path => (files.read? (Path.join directory path)).map (⟨path, ·⟩)
  | .inline name css => some ⟨name, css⟩

def sourcesOf (files : Files) (directory : String) (project : Project) : List Source :=
  project.stylesheets.filterMap (sourceOf? files directory)

def ofProject (renderer : Renderer) (files : Files) (directory : String) (project : Project) : StyledMap :=
  ofSources renderer project (sourcesOf files directory project)

def ofFile (config : Config) (files : Files) (path : String) : Except ProjectError StyledMap := do
  let project ← Project.load files path
  return ofProject (Renderer.ofName config.renderer) files (config.directory.getD (Path.directory path)) project

end StyledMap
end MapStyle
