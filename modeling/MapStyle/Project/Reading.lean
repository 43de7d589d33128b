import MapStyle.Document.Decoding
import MapStyle.Document.Json
import MapStyle.Document.Yaml.Reader
import MapStyle.Number.Decimal
import MapStyle.Project.Basic
/-!
Reading projects. Fields that are not known are passed over, and those that are missing have defaults.
-/
namespace MapStyle

inductive ProjectFormat where
  | json
  | yaml
deriving DecidableEq

namespace ProjectFormat

def document? : ProjectFormat → String → Option Document.Anchored
  | json => fun text => (Document.ofJson? text).map (⟨·, []⟩)
  | yaml => Document.ofYaml?

def depth : ProjectFormat → Nat
  | json => 127
  | yaml => 128

def positional : ProjectFormat → Bool
  | json => true
  | yaml => false

end ProjectFormat

open Decoding

/-- A text is the path of a file; a record has the name and the text of a stylesheet, neither of them a plain scalar of
another kind. -/
def StylesheetSource.ofDocument (depth : Nat) (document : Document) : Decoding StylesheetSource := do
  match ← settle true depth document with
  | .text path => return .file path
  | settled =>
    let fields ← settledFields? ["id", "data"] settled
    let name ← field fields "id" none (some <$> text ·)
    let css ← field fields "data" none (some <$> text ·)
    return .inline (← name) (← css)

def LayerSettings.ofDocument (positional : Bool) (depth : Nat) (document : Document) : Decoding LayerSettings := do
  let fields ← Decoding.fields positional depth ["minzoom", "maxzoom", "group-by", "buffer-size"] document
  return {
    minZoom := ← field fields "minzoom" none (option (nat (twoTo 8)))
    maxZoom := ← field fields "maxzoom" none (option (nat (twoTo 8)))
    groupBy := ← field fields "group-by" none (option text)
    bufferSize := ← field fields "buffer-size" none (option (nat (twoTo 32))) }

def datasourceOfDocument (depth : Nat) (document : Document) : Decoding (List (String × Document)) := do
  let fields ← Decoding.fields false depth [] document
  Entries.lastOfEach <$> fields.mapM fun field => do return (field.1, ← settle false (depth - 1) field.2)

def ProjectLayer.fieldNames : List String :=
  ["id", "name", "class", "srs", "geometry", "status", "properties", "Datasource", "layers"]

def ProjectLayer.ofFields (positional : Bool) (depth : Nat) (fields : List (String × Document)) :
    Decoding ProjectLayer := do
  return {
    id := ← field fields "id" "" text
    givenName := ← field fields "name" none (option text)
    classes := ← field fields "class" "" text
    srs := ← field fields "srs" none (option text)
    geometry := ← field fields "geometry" none (option text)
    status := ← field fields "status" none (option text)
    settings := ← field fields "properties" LayerSettings.unset (LayerSettings.ofDocument positional depth)
    datasource := ← field fields "Datasource" [] (datasourceOfDocument depth) }

/-- A layer and its members, each of which is two collections deeper. -/
def LayerTree.ofDocument (positional : Bool) (depth : Nat) (document : Document) : Decoding LayerTree := do
  let fields ← Decoding.fields positional depth ProjectLayer.fieldNames document
  let layer ← ProjectLayer.ofFields positional (depth - 1) fields
  let members ← match depth with
    | inner + 2 => field fields "layers" [] (list (inner + 1) fun member => ofDocument positional inner member)
    | depth => field fields "layers" [] (list (depth - 1) fun _ => failure)
  return .node layer members

namespace Project

def fieldNames : List String :=
  ["name", "description", "attribution", "bounds", "center", "format", "minzoom", "maxzoom", "srs", "interactivity",
   "Stylesheet", "Layer"]

def ofDocument (positional : Bool) (depth : Nat) (document : Document) : Decoding Project := do
  let fields ← Decoding.fields positional depth fieldNames document
  return {
    name := ← field fields "name" "" text
    description := ← field fields "description" none (option text)
    attribution := ← field fields "attribution" none (option text)
    bounds := ← field fields "bounds" none (option (list (depth - 1) number))
    center := ← field fields "center" none (option (list (depth - 1) number))
    format := ← field fields "format" none (option text)
    minZoom := ← field fields "minzoom" none (option (nat (twoTo 8)))
    maxZoom := ← field fields "maxzoom" none (option (nat (twoTo 8)))
    srs := ← field fields "srs" none (option text)
    interactivity := ← field fields "interactivity" none (option (settle false (depth - 1)))
    stylesheets := ← field fields "Stylesheet" [] (list (depth - 1) (StylesheetSource.ofDocument (depth - 2)))
    layers := ← field fields "Layer" [] (list (depth - 1) (LayerTree.ofDocument positional (depth - 2))) }

def ofText? (format : ProjectFormat) (text : String) : Option Project :=
  (format.document? text).bind fun document => document.decode? (ofDocument format.positional format.depth)

end Project
end MapStyle
