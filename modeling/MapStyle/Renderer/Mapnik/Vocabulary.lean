import MapStyle.Renderer.Vocabulary
/-!
The properties that Mapnik knows.
-/
namespace MapStyle.Mapnik

def lineProperties : List KnownProperty :=
  [optional "line-color", optional "line-width", optional "line-opacity", optional "line-join", optional "line-cap",
   optional "line-gamma", optional "line-gamma-method", optional "line-dasharray", optional "line-dash-offset",
   optional "line-miterlimit", optional "line-clip", optional "line-simplify", optional "line-simplify-algorithm",
   optional "line-smooth", optional "line-offset", optional "line-rasterizer", optional "line-geometry-transform",
   optional "line-comp-op"]

def linePatternProperties : List KnownProperty :=
  [required "line-pattern-file", optional "line-pattern-opacity", optional "line-pattern-clip",
   optional "line-pattern-simplify", optional "line-pattern-simplify-algorithm", optional "line-pattern-smooth",
   optional "line-pattern-offset", optional "line-pattern-geometry-transform", optional "line-pattern-comp-op"]

def polygonProperties : List KnownProperty :=
  [optional "polygon-fill", optional "polygon-opacity", optional "polygon-gamma", optional "polygon-gamma-method",
   optional "polygon-clip", optional "polygon-simplify", optional "polygon-simplify-algorithm",
   optional "polygon-smooth", optional "polygon-offset", optional "polygon-geometry-transform",
   optional "polygon-comp-op"]

def polygonPatternProperties : List KnownProperty :=
  [required "polygon-pattern-file", optional "polygon-pattern-alignment", optional "polygon-pattern-gamma",
   optional "polygon-pattern-opacity", optional "polygon-pattern-clip", optional "polygon-pattern-simplify",
   optional "polygon-pattern-simplify-algorithm", optional "polygon-pattern-smooth",
   optional "polygon-pattern-offset", optional "polygon-pattern-geometry-transform",
   optional "polygon-pattern-comp-op"]

def pointProperties : List KnownProperty :=
  [optional "point-file", optional "point-allow-overlap", optional "point-ignore-placement",
   optional "point-opacity", optional "point-placement", optional "point-transform", optional "point-comp-op"]

def markerProperties : List KnownProperty :=
  [optional "marker-file", optional "marker-opacity", optional "marker-fill-opacity", optional "marker-line-color",
   optional "marker-line-width", optional "marker-line-opacity", optional "marker-placement",
   optional "marker-multi-policy", optional "marker-type", optional "marker-width", optional "marker-height",
   optional "marker-fill", optional "marker-allow-overlap", optional "marker-avoid-edges",
   optional "marker-ignore-placement", optional "marker-spacing", optional "marker-max-error",
   optional "marker-transform", optional "marker-clip", optional "marker-simplify",
   optional "marker-simplify-algorithm", optional "marker-smooth", optional "marker-geometry-transform",
   optional "marker-offset", optional "marker-comp-op", optional "marker-direction"]

def textProperties : List KnownProperty :=
  [required "text-name", required "text-face-name", optional "text-size", optional "text-ratio",
   optional "text-wrap-width", optional "text-wrap-before", optional "text-wrap-character", optional "text-spacing",
   optional "text-character-spacing", optional "text-line-spacing", optional "text-label-position-tolerance",
   optional "text-max-char-angle-delta", optional "text-fill", optional "text-opacity", optional "text-halo-opacity",
   optional "text-halo-fill", optional "text-halo-radius", optional "text-halo-rasterizer", optional "text-dx",
   optional "text-dy", optional "text-vertical-alignment", optional "text-avoid-edges", optional "text-min-distance",
   optional "text-min-padding", optional "text-min-path-length", optional "text-allow-overlap",
   optional "text-orientation", optional "text-placement", optional "text-placement-type",
   optional "text-placements", optional "text-transform", optional "text-horizontal-alignment",
   optional "text-align", optional "text-clip", optional "text-comp-op", optional "text-repeat-distance",
   optional "text-margin", optional "text-upright", optional "text-largest-bbox-only"]

def shieldProperties : List KnownProperty :=
  [optional "shield-name", required "shield-face-name", required "shield-file", optional "shield-size",
   optional "shield-fill", optional "shield-placement", optional "shield-avoid-edges",
   optional "shield-allow-overlap", optional "shield-min-distance", optional "shield-spacing",
   optional "shield-min-padding", optional "shield-wrap-width", optional "shield-wrap-before",
   optional "shield-wrap-character", optional "shield-halo-fill", optional "shield-halo-radius",
   optional "shield-character-spacing", optional "shield-line-spacing", optional "shield-text-dx",
   optional "shield-text-dy", optional "shield-dx", optional "shield-dy", optional "shield-opacity",
   optional "shield-text-opacity", optional "shield-horizontal-alignment", optional "shield-vertical-alignment",
   optional "shield-placement-type", optional "shield-placements", optional "shield-text-transform",
   optional "shield-justify-alignment", optional "shield-transform", optional "shield-clip",
   optional "shield-comp-op", optional "shield-unlock-image"]

def rasterProperties : List KnownProperty :=
  [optional "raster-opacity", optional "raster-filter-factor", optional "raster-scaling",
   optional "raster-mesh-size", optional "raster-comp-op", optional "raster-colorizer-default-mode",
   optional "raster-colorizer-default-color", optional "raster-colorizer-epsilon", optional "raster-colorizer-stops"]

def buildingProperties : List KnownProperty :=
  [optional "building-fill", optional "building-fill-opacity", optional "building-height"]

def styleProperties : List String :=
  ["image-filters", "image-filters-inflate", "direct-image-filters", "comp-op", "opacity", "filter-mode"]

def vocabulary : Vocabulary where
  style := styleProperties
  kinds := [(.line, lineProperties), (.linePattern, linePatternProperties), (.polygon, polygonProperties),
    (.polygonPattern, polygonPatternProperties), (.point, pointProperties), (.marker, markerProperties),
    (.text, textProperties), (.shield, shieldProperties), (.raster, rasterProperties), (.building, buildingProperties)]

end MapStyle.Mapnik
