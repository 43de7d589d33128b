import MapStyle.Renderer.Mapnik.Settings
/-!
Mapnik: filter expressions, image filters, data sources and coordinate systems.
-/
namespace MapStyle.Mapnik
open Text

/-- Text in single quotes, with a backslash before each of its own single quotes. -/
def literal (s : String) : String := "'" ++ replace "'" "\\'" s ++ "'"

def filterValue (filter : Filter) : String :=
  if filter.numeric.isSome then filter.value else literal (unquote filter.value)

def geometryType (value : String) : String :=
  match unquote value with
  | "1" => "point"
  | "2" => "linestring"
  | "3" => "polygon"
  | "4" => "collection"
  | other => other

def filterText (filter : Filter) : String :=
  let key := "[" ++ filter.key ++ "]"
  let value := if filter.key == "mapnik::geometry_type" then geometryType filter.value else filterValue filter
  match filter.op with
  | .regex => key ++ ".match(" ++ value ++ ")"
  | op => key ++ " " ++ op.symbol ++ " " ++ value

def imageFilterNames : List (String × String) :=
  [("blur", "Blur"), ("gaussian_blur", "GaussianBlur"), ("gaussian-blur", "GaussianBlur"), ("invert", "Invert"),
   ("emboss", "Emboss"), ("sharpen", "Sharpen"), ("edge_detect", "EdgeDetect"), ("edge-detect", "EdgeDetect"),
   ("x_gradient", "XGradient"), ("x-gradient", "XGradient"), ("y_gradient", "YGradient"), ("y-gradient", "YGradient"),
   ("normalize", "Normalize"), ("equalize", "Equalize"), ("sepia", "Sepia"), ("gray", "Grayscale"),
   ("grayscale", "Grayscale")]

/-- One image filter; only the stack blur keeps its arguments. -/
def imageFilter (filter : String) : String :=
  let (name, args) := match splitOnce? '(' filter.toList with
    | some (name, rest) => (stripBoth isBlank name, stripBoth isBlank (dropEndWhile (· == ')') rest))
    | none => (stripBoth isBlank filter.toList, [])
  if String.ofList name == "agg-stack-blur" then "StackBlur(" ++ String.ofList args ++ ")"
  else (imageFilterNames.lookup (String.ofList name)).getD "unknownfilter()"

def imageFilters (value : String) : List String := (splitTopLevel value).map imageFilter

def extension (file : String) : String :=
  match splitBy (· == '.') file.toList with
  | [_] => ""
  | parts => lower (String.ofList (parts.getLast?.getD []))

def inferDatasource (file : String) : String :=
  match extension file with
  | "json" | "geojson" | "topojson" => "geojson"
  | "csv" | "kml" => "ogr"
  | "tif" | "tiff" | "vrt" => "gdal"
  | _ => "shape"

def connection (parameters : Parameters) : String :=
  String.intercalate " " (["host", "port", "dbname", "user", "password"].filterMap fun key =>
    (parameters.get? key).map fun value => key ++ "=" ++ value)

def withConnection (parameters : Parameters) : Parameters :=
  let parameters := parameters.insert "connection" (connection parameters)
  match parameters.get? "table" with
  | some table => parameters.insert "table" (replace "!bbox!" "T_BBOX" table)
  | none => parameters

def datasource (given : Parameters) : Except RenderError Parameters :=
  let parameters := given.mapValues unquote
  let kind := match parameters.get? "type" with
    | some kind => lower kind
    | none => inferDatasource ((parameters.get? "file").getD "")
  let complete : Except RenderError Parameters := match kind with
    | "shape" => .ok (parameters.insertNew "encoding" "utf-8")
    | "postgis" => .ok (withConnection parameters)
    | "geojson" | "ogr" | "gdal" | "csv" => .ok parameters
    | other => .error (.unknownDatasource other)
  complete.map fun parameters => parameters.insert "type" kind

def epsg (code : Nat) : String := "EPSG:" ++ toString code

/-- A coordinate system by its code, where it has one of the forms that name a code. -/
def coordinateSystem (value : String) : Except RenderError String :=
  let srs := unquote value
  let small := lower srs
  match (afterPrefix? "+proj=merc +a=6378137 +b=6378137" srs),
      (afterPrefix? "+init=epsg:" small).orElse fun _ => afterPrefix? "epsg:" small with
  | some _, _ => .ok (epsg 3857)
  | none, some code =>
    match readWord32? ((words code).head?.getD code).toList with
    | some code => .ok (epsg code)
    | none => .error (.invalidValue "srs" srs "invalid EPSG code")
  | none, none =>
    match readWord32? srs.toList with
    | some code => .ok (epsg code)
    | none => .ok srs

def renderer : Renderer where
  name := "mapnik"
  vocabulary := vocabulary
  symbolizer := symbolizer
  filterText := fun filter => .ok (filterText filter)
  imageFilters := fun value => .ok (imageFilters value)
  datasource := datasource
  coordinateSystem := coordinateSystem

end MapStyle.Mapnik
