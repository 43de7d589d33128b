import MapStyle.FeatureStyle.Slice
import MapStyle.Task
/-!
The rules of a definition: each slice of its zoom levels becomes rules with one set of symbolizers, one rule for each
run of levels that no earlier rule with the same filters has drawn.
-/
namespace MapStyle

/-- A rule of a renderer; without a filter it fits every feature. -/
structure Rule where
  name : String
  filter : Option String
  span : Zoom.Span
  symbolizers : List Symbolizer

/-- The levels not drawn yet, by filter text; all of them for a text that is not there. -/
structure Remaining where
  entries : List (String × Zoom)

namespace Remaining

def empty : Remaining := ⟨[]⟩

def get (remaining : Remaining) (filters : String) : Zoom := (remaining.entries.lookup filters).getD Zoom.all

def set (remaining : Remaining) (filters : String) (zoom : Zoom) : Remaining :=
  ⟨(filters, zoom) :: remaining.entries.filter fun entry => entry.1 != filters⟩

end Remaining

namespace Group

def properties (context : Context) (kind : Kind) : List Declaration → Job (List Property)
  | [] => pure []
  | declaration :: rest => do
    if context.renderer.vocabulary.isValid kind declaration.property then
      let value ← Job.value declaration.value
      return ⟨declaration.property, value, declaration.place⟩ :: (← properties context kind rest)
    else throw (.unknownProperty declaration.property declaration.place)

def registerFonts (context : Context) (properties : List Property) (symbolizer : Symbolizer) : Job Symbolizer :=
  match properties.find? fun property => Renderer.namesFonts property.name with
  | some property =>
    if context.registersFonts && symbolizer.hasText then do
      let set ← Job.fontSet property.value
      return symbolizer.withFontSet set.name
    else pure symbolizer
  | none => pure symbolizer

def symbolizer? (context : Context) (group : Group) : Job (Option Symbolizer) :=
  match group.declarations with
  | [] => pure none
  | first :: _ => do
    let properties ← properties context group.kind group.declarations
    match context.renderer.vocabulary.missing? group.kind (properties.map Property.name) with
    | some missing => throw (.missingProperty missing group.kind.name first.place)
    | none =>
      let built ← Job.ofExcept
        (RenderError.locateResult first.place (context.renderer.symbolizer group.kind properties))
      let symbolizer ← registerFonts context properties built
      return if symbolizer.isEnabled then some symbolizer else none

def inOrder (context : Context) : List Group → Job (List Symbolizer)
  | [] => pure []
  | group :: rest => do
    let here ← symbolizer? context group
    return here.toList ++ (← inOrder context rest)

def symbolizers (context : Context) (groups : List Group) : Job (List Symbolizer) := do
  return Symbolizer.mergeOutlines (← inOrder context (sort groups))

end Group

namespace Rule

def filterExpression (renderer : Renderer) (definition : Definition) : Except StyleError (Option String) :=
  if definition.filters.isEmpty then .ok none
  else do
    let parts ← definition.filters.filters.mapM fun filter => do
      let text ← RenderError.locateResult (filter.place?.getD definition.place) (renderer.filterText filter)
      return "(" ++ text ++ ")"
    return some (String.intercalate " and " parts)

def ofSlice (slice : Slice) (filter : Option String) (visible : Zoom) (symbolizers : List Symbolizer) : List Rule :=
  if symbolizers.any Symbolizer.isEnabled then
    visible.spans.map fun span => ⟨slice.lead.instanceName, filter, span, symbolizers⟩
  else []

def ofSlices (context : Context) (filter : Option String) (remaining : Zoom) :
    List Slice → Task (List Rule × Except StyleError Zoom)
  | [] => pure ([], .ok remaining)
  | slice :: rest =>
    let visible := remaining.inter slice.levels
    if visible.isEmpty then ofSlices context filter remaining rest
    else do
      match ← ExceptT.run (Group.symbolizers context slice.groups) with
      | .error error => return ([], .error error)
      | .ok symbolizers =>
        let (rules, result) ← ofSlices context filter (remaining.diff slice.levels) rest
        return (ofSlice slice filter visible symbolizers ++ rules, result)

/-- What came of a definition: its rules, the levels that remain, and the failure that ended it. -/
structure Outcome where
  rules : List Rule
  remaining : Remaining
  error : Option StyleError

def ofDefinition (context : Context) (definition : Definition) (remaining : Remaining) : Task Outcome :=
  let target := context.renderer.target?
  match definition.declarations.find? fun declaration => (target declaration.property).isNone with
  | some unknown => pure ⟨[], remaining, some (.unknownProperty unknown.property unknown.place)⟩
  | none =>
    match filterExpression context.renderer definition with
    | .error error => pure ⟨[], remaining, some error⟩
    | .ok filter => do
      let key := definition.filters.text
      let before := remaining.get key
      let (rules, result) ← ofSlices context filter before (Slice.cut target before Zoom.all definition.declarations)
      match result with
      | .ok after => return ⟨rules, remaining.set key after, none⟩
      | .error error => return ⟨rules, remaining.set key before, some error⟩

end Rule
end MapStyle
