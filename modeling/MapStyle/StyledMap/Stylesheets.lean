import MapStyle.Nesting
import MapStyle.Renderer.Basic
import MapStyle.StyledMap.Basic
/-!
The stylesheets of a map. They share their variables and are numbered on from one to the next, and a stylesheet that
cannot be read or flattened is left out.
-/
namespace MapStyle

/-- A stylesheet with the name that messages give it. -/
structure Source where
  name : String
  css : String

/-- What the stylesheets of a map define, in cascade order. -/
structure Stylesheets where
  scope : Scope
  definitions : List Definition

namespace Stylesheets

def readFrom (numbering : Reader.Numbering) : List Source → List Sheet
  | [] => []
  | source :: rest =>
    match Sheet.read source.name source.css numbering with
    | .ok (sheet, after) => sheet :: readFrom after rest
    | .error _ => readFrom numbering rest

def read (sources : List Source) : List Sheet := readFrom ⟨0, 0⟩ sources

def scopeOf (sheets : List Sheet) : Scope := sheets.foldl (fun scope sheet => sheet.defineVariables scope) Scope.empty

def definitionsOf (scope : Scope) (sheets : List Sheet) : List Definition :=
  sheets.flatMap fun sheet => (sheet.definitions scope).toOption.getD []

def load (sources : List Source) : Stylesheets :=
  let sheets := read sources
  let scope := scopeOf sheets
  ⟨scope, Definition.cascade (definitionsOf scope sheets)⟩

def declarations (sheets : Stylesheets) : List Declaration := sheets.definitions.flatMap Definition.declarations

def valueOf? (sheets : Stylesheets) (declaration : Declaration) : Option String :=
  (sheets.scope.evaluate declaration.value).toOption

def mapProperties (sheets : Stylesheets) : MapProperties :=
  let declarations := (sheets.definitions.filter fun definition => definition.isNamed "Map").flatMap Definition.declarations
  MapProperties.ofList (declarations.filterMap fun declaration =>
    (sheets.valueOf? declaration).map (declaration.property, ·))

def faceLists (sheets : Stylesheets) : List String :=
  (sheets.declarations.filter fun declaration => Renderer.namesFonts declaration.property).filterMap sheets.valueOf?

def fontSets (sheets : Stylesheets) : FontSets :=
  sheets.faceLists.foldl (fun sets faces => (sets.getOrCreate faces).2) FontSets.empty

end Stylesheets
end MapStyle
