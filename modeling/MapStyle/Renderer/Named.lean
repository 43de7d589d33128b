import MapStyle.Renderer.Mapnik.Basic
/-!
Renderers by name: Mapnik, and GeoServer, against whose properties stylesheets can be checked although it draws nothing
yet.
-/
namespace MapStyle

namespace GeoServer

def lineProperties : List KnownProperty :=
  [optional "line-color", optional "line-width", optional "line-opacity", optional "line-join", optional "line-cap",
   optional "line-dasharray", optional "line-dash-offset", optional "line-offset"]

def polygonProperties : List KnownProperty :=
  [optional "polygon-fill", optional "polygon-opacity"]

def pointProperties : List KnownProperty :=
  [optional "point-file", optional "point-opacity", optional "point-allow-overlap"]

def markerProperties : List KnownProperty :=
  [optional "marker-file", optional "marker-fill", optional "marker-width", optional "marker-opacity",
   optional "marker-line-color", optional "marker-line-width", optional "marker-type"]

def textProperties : List KnownProperty :=
  [required "text-name", required "text-face-name", optional "text-size", optional "text-fill",
   optional "text-halo-fill", optional "text-halo-radius", optional "text-placement", optional "text-dx",
   optional "text-dy"]

def rasterProperties : List KnownProperty :=
  [optional "raster-opacity"]

def vocabulary : Vocabulary where
  style := ["opacity", "comp-op", "filter-mode"]
  kinds := [(.line, lineProperties), (.polygon, polygonProperties), (.point, pointProperties),
    (.marker, markerProperties), (.text, textProperties), (.raster, rasterProperties)]

def renderer : Renderer where
  name := "geoserver"
  vocabulary := vocabulary
  symbolizer := fun _ _ => .error (.unsupported "GeoServer symbolizers")
  filterText := fun _ => .error (.unsupported "GeoServer filters")
  imageFilters := fun _ => .error (.unsupported "GeoServer image filters")
  datasource := fun _ => .error (.unsupported "GeoServer datasources")
  coordinateSystem := fun _ => .error (.unsupported "GeoServer coordinate systems")

end GeoServer

/-- The renderer with a name, in any case; Mapnik stands for every name that is not known. -/
def Renderer.ofName (name : String) : Renderer :=
  if Text.lower name == "geoserver" then GeoServer.renderer else Mapnik.renderer

end MapStyle
