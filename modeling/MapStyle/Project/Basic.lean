import MapStyle.Document.Basic
import MapStyle.Project.Tree
import MapStyle.Renderer.Basic
/-!
Projects: a map with its stylesheets and its layers, some of which are groups of others.
-/
namespace MapStyle

/-- A stylesheet in a file, or one that the project holds itself. -/
inductive StylesheetSource where
  | file (path : String)
  | inline (name css : String)

def StylesheetSource.name : StylesheetSource → String
  | file path => path
  | inline name _ => name

structure LayerSettings where
  minZoom : Option Nat
  maxZoom : Option Nat
  groupBy : Option String
  bufferSize : Option Nat

def LayerSettings.unset : LayerSettings := ⟨none, none, none, none⟩

/-- A layer as the project describes it, without its members. -/
structure ProjectLayer where
  id : String
  givenName : Option String
  classes : String
  srs : Option String
  geometry : Option String
  status : Option String
  settings : LayerSettings
  datasource : List (String × Document)

namespace ProjectLayer

def name (layer : ProjectLayer) : String :=
  match layer.givenName with
  | some "" | none => layer.id
  | some name => name

def classNames (layer : ProjectLayer) : List String := Text.words layer.classes

def isEnabled (layer : ProjectLayer) : Bool := !layer.status.any fun status => Text.lower status == "off"

def parameterText? : Document → Option String
  | .text s => some s
  | .null => none
  | value => some value.compact

def parameters (layer : ProjectLayer) : Parameters :=
  ⟨layer.datasource.filterMap fun entry => (parameterText? entry.2).map (entry.1, ·)⟩

end ProjectLayer

/-- A layer with its members; one that has members is a group. -/
abbrev LayerTree := Tree ProjectLayer

def LayerTree.isGroup (tree : LayerTree) : Bool := !tree.members.isEmpty

structure Project where
  name : String
  description : Option String
  attribution : Option String
  bounds : Option (List Number)
  center : Option (List Number)
  format : Option String
  minZoom : Option Nat
  maxZoom : Option Nat
  srs : Option String
  interactivity : Option Document
  stylesheets : List StylesheetSource
  layers : List LayerTree

namespace Project

def interactivityLayer? (project : Project) : Option String :=
  match project.interactivity with
  | some (.record fields) =>
    match fields.reverse.find? fun field => field.1.text? == some "layer" with
    | some (_, .text name) => if name.isEmpty then none else some name
    | _ => none
  | _ => none

def layerCount (project : Project) : Nat := Tree.sizeAll project.layers

end Project
end MapStyle
