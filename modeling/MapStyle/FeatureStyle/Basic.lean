import MapStyle.Cascade.Style
import MapStyle.FeatureStyle.Rules
import MapStyle.Renderer.Reading
/-!
Feature styles: what a renderer gets for one attachment of a layer.
-/
namespace MapStyle

structure FeatureStyle where
  name : String
  filterMode : FilterMode
  opacity : Option Number
  compOp : Option Compositing
  imageFilters : List String
  directImageFilters : List String
  inflateImageFilters : Bool
  rules : List Rule

namespace FeatureStyle

def styleName (layer attachment : String) : String :=
  if attachment == defaultAttachment then layer else layer ++ "-" ++ attachment

/-- What the style properties have set so far; of image filters the texts that were seen are kept with their names. -/
structure Settings where
  opacity : Option Number
  compOp : Option Compositing
  seen : List String
  imageFilters : List String
  seenDirect : List String
  directImageFilters : List String
  inflate : Option Bool

def Settings.start : Settings := ⟨none, none, [], [], [], [], none⟩

def readOpacity (declaration : Declaration) (value : String) : Except StyleError Number :=
  match Number.read? (Text.trim value) with
  | some opacity => .ok opacity
  | none => .error (.invalidValue declaration.property value "expected a number" declaration.place)

/-- Takes a style property: the first of each counts, of image filters every text that is new. -/
def Settings.take (renderer : Renderer) (settings : Settings) (declaration : Declaration) (value : String) :
    Except StyleError Settings :=
  match declaration.property with
  | "opacity" =>
    if settings.opacity.isSome then .ok settings
    else do return { settings with opacity := some (← readOpacity declaration value) }
  | "comp-op" =>
    if settings.compOp.isSome then .ok settings
    else do
      let mode ← RenderError.locateResult declaration.place (readCompositing "comp-op" value)
      return { settings with compOp := some mode }
  | "image-filters" =>
    if settings.seen.contains value then .ok settings
    else do
      let filters ← RenderError.locateResult declaration.place (renderer.imageFilters value)
      return { settings with imageFilters := settings.imageFilters ++ filters, seen := settings.seen ++ [value] }
  | "direct-image-filters" =>
    if settings.seenDirect.contains value then .ok settings
    else do
      let filters ← RenderError.locateResult declaration.place (renderer.imageFilters value)
      return { settings with
        directImageFilters := settings.directImageFilters ++ filters, seenDirect := settings.seenDirect ++ [value] }
  | "image-filters-inflate" =>
    .ok (if settings.inflate.isSome then settings else { settings with inflate := some (Text.trim value == "true") })
  | _ => .ok settings

def isStyleProperty (context : Context) (declaration : Declaration) : Bool :=
  context.renderer.target? declaration.property == some .style

def readSettings (context : Context) (settings : Settings) : List Declaration → Job Settings
  | [] => pure settings
  | declaration :: rest => do
    if isStyleProperty context declaration then
      let value ← Job.value declaration.value
      readSettings context (← Job.ofExcept (settings.take context.renderer declaration value)) rest
    else readSettings context settings rest

def rulesOf (context : Context) (remaining : Remaining) : List Definition → Job (List Rule)
  | [] => pure []
  | definition :: rest => do
    if definition.declarations.all (isStyleProperty context) then rulesOf context remaining rest
    else
      let outcome ← ExceptT.lift (Rule.ofDefinition context definition remaining)
      match outcome.error with
      | some error => throw error
      | none => return outcome.rules ++ (← rulesOf context outcome.remaining rest)

def ofStyle (context : Context) (name : String) (style : Style) : Job FeatureStyle := do
  let filterMode ← style.filterMode
  let settings ← readSettings context Settings.start (style.definitions.flatMap Definition.declarations)
  let rules ← rulesOf context Remaining.empty style.definitions
  return {
    name
    filterMode
    opacity := settings.opacity
    compOp := settings.compOp
    imageFilters := settings.imageFilters
    directImageFilters := settings.directImageFilters
    inflateImageFilters := settings.inflate.getD false
    rules }

def ofStyles (context : Context) (layer : String) : List Style → Job (List FeatureStyle)
  | [] => pure []
  | style :: rest => do
    let mode ← style.filterMode
    let feature ← ofStyle context (styleName layer style.attachment) (style.fold mode)
    let features ← ofStyles context layer rest
    return if feature.rules.isEmpty then features else feature :: features

def ofLayer (context : Context) (layer : String) (definitions : List Definition) : Job (List FeatureStyle) := do
  let styles ← Job.ofExcept (Style.inherit context.scope definitions)
  ofStyles context layer (Style.sort styles)

end FeatureStyle
end MapStyle
