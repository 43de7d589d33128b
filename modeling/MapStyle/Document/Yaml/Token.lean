import MapStyle.Document.Basic
/-!
The tokens of YAML, in which the layout is explicit: blocks are bracketed, and the name of a field is announced.
-/
namespace MapStyle.Document.Yaml

inductive Token where
  | version (major minor : Nat)
  | tagShort (handle long : String)
  | documentStart
  | documentEnd
  | textEnd
  | blockList
  | blockRecord
  | blockEnd
  | openList
  | closeList
  | openRecord
  | closeRecord
  | comma
  | dash
  | name
  | value
  | anchor (id : String)
  | alias (id : String)
  | tag (handle suffix : String)
  | scalar (node : Document)

end MapStyle.Document.Yaml
