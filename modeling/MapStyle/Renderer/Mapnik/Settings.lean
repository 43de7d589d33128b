import MapStyle.Renderer.Mapnik.Vocabulary
import MapStyle.Renderer.Reading
/-!
How Mapnik's properties set the fields of symbolizers. A symbolizer is built by applying its properties one after the
other to the default; a property without a setting here is known but changes nothing.
-/
namespace MapStyle.Mapnik

/-- Reads a property and tells what it changes. -/
abbrev Setter (σ : Type) := Property → Except RenderError (σ → σ)

abbrev Settings (σ : Type) := List (String × Setter σ)

def apply {σ : Type} (settings : Settings σ) (symbolizer : σ) (p : Property) : Except RenderError σ :=
  match settings.lookup p.name with
  | some setter => (setter p).map fun change => change symbolizer
  | none => .ok symbolizer

def build {σ : Type} (settings : Settings σ) (start : σ) (properties : List Property) : Except RenderError σ :=
  properties.foldlM (apply settings) start

/-- The settings under names that start with `start` and a hyphen, made on a part of a symbolizer. -/
def within {σ τ : Type} (start : String) (update : (τ → τ) → σ → σ) (settings : Settings τ) : Settings σ :=
  settings.map fun entry => (start ++ "-" ++ entry.1, fun p => (entry.2 p).map update)

def commonSettings : Settings CommonSettings :=
  [("clip", fun p => p.boolean.map fun v s => { s with clip := v }),
   ("comp-op", fun p => p.compositing.map fun v s => { s with compOp := some v }),
   ("simplify", fun p => p.number.map fun v s => { s with geometry := { s.geometry with simplify := some v } }),
   ("simplify-algorithm", fun p => p.word.map fun v s =>
     { s with geometry := { s.geometry with simplifyAlgorithm := some v } }),
   ("smooth", fun p => p.number.map fun v s => { s with geometry := { s.geometry with smooth := some v } }),
   ("offset", fun p => p.number.map fun v s => { s with geometry := { s.geometry with offset := some v } }),
   ("geometry-transform", fun p => p.word.map fun v s => { s with geometry := { s.geometry with transform := some v } })]

def caps : List (String × LineCap) := [("butt", .butt), ("round", .round), ("square", .square)]

def joins : List (String × LineJoin) :=
  [("miter", .miter), ("miter-revert", .miterRevert), ("round", .round), ("bevel", .bevel)]

def strokeSettings : Settings Stroke :=
  [("color", fun p => p.color.map fun v s => { s with color := v }),
   ("width", fun p => p.number.map fun v s => { s with width := v }),
   ("opacity", fun p => p.number.map fun v s => { s with opacity := v }),
   ("join", fun p => (p.choice joins).map fun v s => { s with join := v }),
   ("cap", fun p => (p.choice caps).map fun v s => { s with cap := v }),
   ("gamma", fun p => p.number.map fun v s => { s with gamma := v }),
   ("dasharray", fun p => p.numbers.map fun v s => { s with dashArray := v }),
   ("dash-offset", fun p => p.number.map fun v s => { s with dashOffset := v }),
   ("miterlimit", fun p => p.number.map fun v s => { s with miterLimit := v })]

def lineSettings : Settings LineSymbolizer :=
  within "line" (fun f s => { s with common := f s.common }) commonSettings ++
  within "line" (fun f s => { s with stroke := f s.stroke }) strokeSettings

def linePatternSettings : Settings LinePatternSymbolizer :=
  within "line-pattern" (fun f s => { s with common := f s.common }) commonSettings ++
  [("line-pattern-file", fun p => p.path.map fun v s => { s with file := v }),
   ("line-pattern-opacity", fun p => p.number.map fun v s => { s with opacity := v })]

def polygonSettings : Settings PolygonSymbolizer :=
  within "polygon" (fun f s => { s with common := f s.common }) commonSettings ++
  [("polygon-fill", fun p => p.color.map fun v s => { s with fill := v }),
   ("polygon-opacity", fun p => p.number.map fun v s => { s with opacity := v }),
   ("polygon-gamma", fun p => p.number.map fun v s => { s with gamma := v })]

def alignments : List (String × PatternAlignment) := [("global", .global), ("local", .local)]

def polygonPatternSettings : Settings PolygonPatternSymbolizer :=
  within "polygon-pattern" (fun f s => { s with common := f s.common }) commonSettings ++
  [("polygon-pattern-file", fun p => p.path.map fun v s => { s with file := v }),
   ("polygon-pattern-opacity", fun p => p.number.map fun v s => { s with opacity := v }),
   ("polygon-pattern-alignment", fun p => (p.choice alignments).map fun v s => { s with alignment := v })]

def pointPlacements : List (String × PointPlacement) := [("centroid", .centroid), ("interior", .interior)]

def pointSettings : Settings PointSymbolizer :=
  within "point" (fun f s => { s with common := f s.common }) commonSettings ++
  [("point-file", fun p => p.path.map fun v s => { s with file := some v }),
   ("point-opacity", fun p => p.number.map fun v s => { s with opacity := v }),
   ("point-allow-overlap", fun p => p.boolean.map fun v s => { s with allowOverlap := v }),
   ("point-ignore-placement", fun p => p.boolean.map fun v s => { s with ignorePlacement := v }),
   ("point-placement", fun p => (p.choice pointPlacements).map fun v s => { s with placement := v }),
   ("point-transform", fun p => p.word.map fun v s => { s with transform := some v })]

def shapes : List (String × MarkerShape) := [("ellipse", .ellipse), ("arrow", .arrow)]

def markerPlacements : List (String × MarkerPlacement) :=
  [("point", .point), ("line", .line), ("interior", .interior), ("vertex-first", .vertexFirst),
   ("vertex-last", .vertexLast)]

/-- Changes the outline of a marker, which it gets with the first such change. -/
def updateOutline (f : Stroke → Stroke) (marker : MarkerSymbolizer) : MarkerSymbolizer :=
  { marker with stroke := some (f (marker.stroke.getD {})) }

def markerSettings : Settings MarkerSymbolizer :=
  within "marker" (fun f s => { s with common := f s.common }) commonSettings ++
  [("marker-file", fun p => p.path.map fun v s => { s with file := some v }),
   ("marker-opacity", fun p => p.number.map fun v s => { s with opacity := v }),
   ("marker-fill-opacity", fun p => p.number.map fun v s => { s with fillOpacity := v }),
   ("marker-fill", fun p => p.color.map fun v s => { s with fill := v }),
   ("marker-width", fun p => p.number.map fun v s => { s with width := some v }),
   ("marker-height", fun p => p.number.map fun v s => { s with height := some v }),
   ("marker-spacing", fun p => p.number.map fun v s => { s with spacing := v }),
   ("marker-allow-overlap", fun p => p.boolean.map fun v s => { s with allowOverlap := v }),
   ("marker-ignore-placement", fun p => p.boolean.map fun v s => { s with ignorePlacement := v }),
   ("marker-transform", fun p => p.word.map fun v s => { s with transform := some v }),
   ("marker-type", fun p => (p.choice shapes).map fun v s => { s with shape := v }),
   ("marker-placement", fun p => (p.choice markerPlacements).map fun v s => { s with placement := v }),
   ("marker-line-color", fun p => p.color.map fun v => updateOutline fun s => { s with color := v }),
   ("marker-line-width", fun p => p.number.map fun v => updateOutline fun s => { s with width := v }),
   ("marker-line-opacity", fun p => p.number.map fun v => updateOutline fun s => { s with opacity := v })]

def transforms : List (String × TextTransform) :=
  [("none", .none), ("uppercase", .uppercase), ("lowercase", .lowercase), ("capitalize", .capitalize)]

def labelPlacements : List (String × LabelPlacement) :=
  [("point", .point), ("line", .line), ("interior", .interior), ("vertex", .vertex)]

/-- The names of faces as written, without any quotes. -/
def withoutQuotes (s : String) : String := String.ofList (s.toList.filter fun c => !Text.isQuote c)

def labelSettings : Settings TextStyle :=
  [("name", fun p => p.word.map fun v s => { s with expression := v }),
   ("face-name", fun p => .ok fun s => { s with faceName := withoutQuotes p.value }),
   ("size", fun p => p.number.map fun v s => { s with size := v }),
   ("fill", fun p => p.color.map fun v s => { s with fill := v }),
   ("opacity", fun p => p.number.map fun v s => { s with opacity := v }),
   ("text-opacity", fun p => p.number.map fun v s => { s with opacity := v }),
   ("halo-fill", fun p => p.color.map fun v s => { s with haloFill := v }),
   ("halo-radius", fun p => p.number.map fun v s => { s with haloRadius := v }),
   ("wrap-width", fun p => p.number.map fun v s => { s with wrapWidth := v }),
   ("wrap-before", fun p => p.boolean.map fun v s => { s with wrapBefore := v }),
   ("wrap-character", fun p => p.word.map fun v s => { s with wrapCharacter := v.toList.head? }),
   ("character-spacing", fun p => p.number.map fun v s => { s with characterSpacing := v }),
   ("line-spacing", fun p => p.number.map fun v s => { s with lineSpacing := v }),
   ("dx", fun p => p.number.map fun v s => { s with dx := v }),
   ("text-dx", fun p => p.number.map fun v s => { s with dx := v }),
   ("dy", fun p => p.number.map fun v s => { s with dy := v }),
   ("text-dy", fun p => p.number.map fun v s => { s with dy := v }),
   ("allow-overlap", fun p => p.boolean.map fun v s => { s with allowOverlap := v }),
   ("avoid-edges", fun p => p.boolean.map fun v s => { s with avoidEdges := v }),
   ("min-distance", fun p => p.number.map fun v s => { s with minDistance := v }),
   ("spacing", fun p => p.number.map fun v s => { s with spacing := v }),
   ("max-char-angle-delta", fun p => p.number.map fun v s => { s with maxCharAngleDelta := some v }),
   ("horizontal-alignment", fun p => p.word.map fun v s => { s with horizontalAlignment := some v }),
   ("vertical-alignment", fun p => p.word.map fun v s => { s with verticalAlignment := some v }),
   ("transform", fun p => (p.choice transforms).map fun v s => { s with transform := v }),
   ("text-transform", fun p => (p.choice transforms).map fun v s => { s with transform := v }),
   ("placement", fun p => (p.choice labelPlacements).map fun v s => { s with placement := v })]

def textSettings : Settings TextSymbolizer :=
  within "text" (fun f s => { s with common := f s.common }) commonSettings ++
  within "text" (fun f s => { s with text := f s.text }) labelSettings

/-- What a shield has of its own goes before what it has as a label. -/
def shieldSettings : Settings ShieldSymbolizer :=
  within "shield" (fun f s => { s with common := f s.common }) commonSettings ++
  [("shield-file", fun p => p.path.map fun v s => { s with file := v }),
   ("shield-opacity", fun p => p.number.map fun v s => { s with opacity := v }),
   ("shield-text-opacity", fun p => p.number.map fun v s => { s with textOpacity := v }),
   ("shield-dx", fun p => p.number.map fun v s => { s with dx := v }),
   ("shield-dy", fun p => p.number.map fun v s => { s with dy := v }),
   ("shield-unlock-image", fun p => p.boolean.map fun v s => { s with unlockImage := v })] ++
  within "shield" (fun f s => { s with text := f s.text }) labelSettings

def rasterSettings : Settings RasterSymbolizer :=
  within "raster" (fun f s => { s with common := f s.common }) commonSettings ++
  [("raster-opacity", fun p => p.number.map fun v s => { s with opacity := v }),
   ("raster-scaling", fun p => p.word.map fun v s => { s with scaling := v }),
   ("raster-filter-factor", fun p => p.number.map fun v s => { s with filterFactor := some v }),
   ("raster-mesh-size", fun p => p.count.map fun v s => { s with meshSize := some v })]

def buildingSettings : Settings BuildingSymbolizer :=
  [("building-fill", fun p => p.color.map fun v s => { s with fill := v }),
   ("building-fill-opacity", fun p => p.number.map fun v s => { s with fillOpacity := v }),
   ("building-height", fun p => p.word.map fun v s => { s with height := v })]

def symbolizer (kind : Kind) (properties : List Property) : Except RenderError Symbolizer :=
  match kind with
  | .line => (build lineSettings {} properties).map .line
  | .linePattern => (build linePatternSettings {} properties).map .linePattern
  | .polygon => (build polygonSettings {} properties).map .polygon
  | .polygonPattern => (build polygonPatternSettings {} properties).map .polygonPattern
  | .point => (build pointSettings {} properties).map .point
  | .marker => (build markerSettings {} properties).map .marker
  | .text => (build textSettings {} properties).map .text
  | .shield => (build shieldSettings {} properties).map .shield
  | .raster => (build rasterSettings {} properties).map .raster
  | .building => (build buildingSettings {} properties).map .building

end MapStyle.Mapnik
