import MapStyle.Color.Basic
import MapStyle.Number.Basic
/-!
Symbolizers: the drawing instructions of a rule, one kind for each way of drawing.
-/
namespace MapStyle

inductive Kind where
  | line
  | linePattern
  | polygon
  | polygonPattern
  | point
  | marker
  | text
  | shield
  | raster
  | building
deriving DecidableEq

namespace Kind

def all : List Kind :=
  [line, linePattern, polygon, polygonPattern, point, marker, text, shield, raster, building]

def name : Kind → String
  | line => "line"
  | linePattern => "line-pattern"
  | polygon => "polygon"
  | polygonPattern => "polygon-pattern"
  | point => "point"
  | marker => "marker"
  | text => "text"
  | shield => "shield"
  | raster => "raster"
  | building => "building"

end Kind

/-- The compositing operations of Porter and Duff, and the blend modes. -/
inductive Compositing where
  | clear | src | dst | srcOver | dstOver | srcIn | dstIn | srcOut | dstOut | srcAtop | dstAtop | xor | plus | minus
  | multiply | screen | overlay | darken | lighten | colorDodge | colorBurn | hardLight | softLight | difference
  | exclusion | contrast | invert | invertRgb | grainMerge | grainExtract | hue | saturation | color | value
deriving DecidableEq

namespace Compositing

def names : List (String × Compositing) :=
  [("clear", clear), ("src", src), ("dst", dst), ("src-over", srcOver), ("dst-over", dstOver), ("src-in", srcIn),
   ("dst-in", dstIn), ("src-out", srcOut), ("dst-out", dstOut), ("src-atop", srcAtop), ("dst-atop", dstAtop),
   ("xor", xor), ("plus", plus), ("minus", minus), ("multiply", multiply), ("screen", screen), ("overlay", overlay),
   ("darken", darken), ("lighten", lighten), ("color-dodge", colorDodge), ("color-burn", colorBurn),
   ("hard-light", hardLight), ("soft-light", softLight), ("difference", difference), ("exclusion", exclusion),
   ("contrast", contrast), ("invert", invert), ("invert-rgb", invertRgb), ("grain-merge", grainMerge),
   ("grain-extract", grainExtract), ("hue", hue), ("saturation", saturation), ("color", color), ("value", value)]

def ofName? (name : String) : Option Compositing := names.lookup name

end Compositing

inductive LineCap where
  | butt | round | square
deriving DecidableEq

inductive LineJoin where
  | miter | miterRevert | round | bevel
deriving DecidableEq

/-- The outline of a line or a polygon. -/
structure Stroke where
  color : Color := Color.black
  width : Number := Number.ofNat 1
  opacity : Number := Number.ofNat 1
  cap : LineCap := .butt
  join : LineJoin := .miter
  dashArray : List Number := []
  dashOffset : Number := Number.zero
  miterLimit : Number := Number.ofNat 4
  gamma : Number := Number.ofNat 1
deriving DecidableEq

/-- What is done to a geometry before it is drawn. -/
structure Geometry where
  simplify : Option Number := none
  simplifyAlgorithm : Option String := none
  smooth : Option Number := none
  offset : Option Number := none
  transform : Option String := none
deriving DecidableEq

/-- What every symbolizer can be told. -/
structure CommonSettings where
  clip : Bool := true
  compOp : Option Compositing := none
  geometry : Geometry := {}
deriving DecidableEq

structure LineSymbolizer where
  stroke : Stroke := {}
  common : CommonSettings := {}
deriving DecidableEq

structure LinePatternSymbolizer where
  file : String := ""
  opacity : Number := Number.ofNat 1
  common : CommonSettings := {}
deriving DecidableEq

structure PolygonSymbolizer where
  fill : Color := Color.gray
  opacity : Number := Number.ofNat 1
  gamma : Number := Number.ofNat 1
  stroke : Option Stroke := none
  common : CommonSettings := {}
deriving DecidableEq

inductive PatternAlignment where
  | global | local
deriving DecidableEq

structure PolygonPatternSymbolizer where
  file : String := ""
  alignment : PatternAlignment := .global
  opacity : Number := Number.ofNat 1
  common : CommonSettings := {}
deriving DecidableEq

inductive PointPlacement where
  | centroid | interior
deriving DecidableEq

structure PointSymbolizer where
  file : Option String := none
  opacity : Number := Number.ofNat 1
  allowOverlap : Bool := false
  ignorePlacement : Bool := false
  placement : PointPlacement := .centroid
  transform : Option String := none
  common : CommonSettings := {}
deriving DecidableEq

inductive MarkerShape where
  | ellipse | arrow
deriving DecidableEq

inductive MarkerPlacement where
  | point | line | interior | vertexFirst | vertexLast
deriving DecidableEq

structure MarkerSymbolizer where
  file : Option String := none
  shape : MarkerShape := .ellipse
  width : Option Number := none
  height : Option Number := none
  fill : Color := Color.rgb 0 0 255
  fillOpacity : Number := Number.ofNat 1
  stroke : Option Stroke := none
  opacity : Number := Number.ofNat 1
  placement : MarkerPlacement := .point
  spacing : Number := Number.ofNat 100
  allowOverlap : Bool := false
  ignorePlacement : Bool := false
  transform : Option String := none
  common : CommonSettings := {}
deriving DecidableEq

inductive TextTransform where
  | none | uppercase | lowercase | capitalize
deriving DecidableEq

inductive LabelPlacement where
  | point | line | interior | vertex
deriving DecidableEq

/-- The label of a text or shield symbolizer; `fontSet` is the name under which its faces are registered. -/
structure TextStyle where
  expression : String := ""
  faceName : String := ""
  fontSet : Option String := none
  size : Number := Number.ofNat 10
  fill : Color := Color.black
  opacity : Number := Number.ofNat 1
  haloFill : Color := Color.white
  haloRadius : Number := Number.zero
  transform : TextTransform := .none
  wrapWidth : Number := Number.zero
  wrapBefore : Bool := false
  wrapCharacter : Option Char := none
  characterSpacing : Number := Number.zero
  lineSpacing : Number := Number.zero
  dx : Number := Number.zero
  dy : Number := Number.zero
  placement : LabelPlacement := .point
  allowOverlap : Bool := false
  avoidEdges : Bool := false
  minDistance : Number := Number.zero
  spacing : Number := Number.zero
  maxCharAngleDelta : Option Number := none
  horizontalAlignment : Option String := none
  verticalAlignment : Option String := none
deriving DecidableEq

structure TextSymbolizer where
  text : TextStyle := {}
  common : CommonSettings := {}
deriving DecidableEq

structure ShieldSymbolizer where
  text : TextStyle := {}
  file : String := ""
  opacity : Number := Number.ofNat 1
  textOpacity : Number := Number.ofNat 1
  dx : Number := Number.zero
  dy : Number := Number.zero
  unlockImage : Bool := false
  common : CommonSettings := {}
deriving DecidableEq

structure RasterSymbolizer where
  opacity : Number := Number.ofNat 1
  scaling : String := "near"
  filterFactor : Option Number := none
  meshSize : Option Nat := none
  common : CommonSettings := {}
deriving DecidableEq

structure BuildingSymbolizer where
  fill : Color := Color.white
  fillOpacity : Number := Number.ofNat 1
  height : String := "0"
  common : CommonSettings := {}
deriving DecidableEq

inductive Symbolizer where
  | line (line : LineSymbolizer)
  | linePattern (pattern : LinePatternSymbolizer)
  | polygon (polygon : PolygonSymbolizer)
  | polygonPattern (pattern : PolygonPatternSymbolizer)
  | point (point : PointSymbolizer)
  | marker (marker : MarkerSymbolizer)
  | text (text : TextSymbolizer)
  | shield (shield : ShieldSymbolizer)
  | raster (raster : RasterSymbolizer)
  | building (building : BuildingSymbolizer)
deriving DecidableEq

namespace Symbolizer

def kind : Symbolizer → Kind
  | line _ => .line
  | linePattern _ => .linePattern
  | polygon _ => .polygon
  | polygonPattern _ => .polygonPattern
  | point _ => .point
  | marker _ => .marker
  | text _ => .text
  | shield _ => .shield
  | raster _ => .raster
  | building _ => .building

/-- Whether it can draw anything: a line needs width and opacity, a polygon opacity or an outline, a text an
expression, a shield a file. -/
def isEnabled : Symbolizer → Bool
  | line l => Number.zero.lt l.stroke.width && Number.zero.lt l.stroke.opacity
  | polygon p => Number.zero.lt p.opacity || p.stroke.isSome
  | text t => t.text.expression != ""
  | shield s => s.file != ""
  | _ => true

def hasText : Symbolizer → Bool
  | text _ | shield _ => true
  | _ => false

def withFontSet (name : String) : Symbolizer → Symbolizer
  | text t => text { t with text := { t.text with fontSet := some name } }
  | shield s => shield { s with text := { s.text with fontSet := some name } }
  | symbolizer => symbolizer

def canOutline (polygon : PolygonSymbolizer) (line : LineSymbolizer) : Bool :=
  polygon.stroke.isNone && polygon.common.compOp == line.common.compOp &&
    line.common.geometry == {} && polygon.common.geometry == {}

def mergeOutlines : List Symbolizer → List Symbolizer
  | .polygon p :: .line l :: rest =>
    if canOutline p l then .polygon { p with stroke := some l.stroke } :: mergeOutlines rest
    else .polygon p :: mergeOutlines (.line l :: rest)
  | symbolizer :: rest => symbolizer :: mergeOutlines rest
  | [] => []

end Symbolizer
end MapStyle
