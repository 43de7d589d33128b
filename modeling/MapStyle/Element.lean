/-!
Selector elements: what a selector says about a layer's id and classes.
-/
namespace MapStyle

inductive Element where
  | id (name : String)
  | cls (name : String)
  | wildcard
  | bare (name : String)
deriving DecidableEq

namespace Element

def ofText (raw : String) : Element :=
  match raw.toList with
  | '#' :: name => .id (String.ofList name)
  | '.' :: name => .cls (String.ofList name)
  | chars => if chars.contains '*' then .wildcard else .bare raw

def name : Element → String
  | id name | cls name | bare name => name
  | wildcard => "*"

def text : Element → String
  | id name => "#" ++ name
  | cls name => "." ++ name
  | wildcard => "*"
  | bare name => name

/-- Whether a layer with this id and these classes has what the element asks for; a bare name fits no layer. -/
def appliesTo (layer : String) (classes : List String) : Element → Bool
  | id name => name == layer
  | cls name => classes.contains name
  | wildcard => true
  | bare _ => false

end Element
end MapStyle
