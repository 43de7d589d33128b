import MapStyle.Number.Shortest
import MapStyle.StyleError
/-!
Values as written in a stylesheet: terms, space-separated sequences and comma-separated lists, with
variables that are resolved only when every stylesheet has been read.
-/
namespace MapStyle

inductive Value where
  | keyword (word : String)
  | number (value : Number) (unit : Option String)
  | percentage (value : Number)
  | color (text : String)
  | quoted (text : String)
  | field (name : String)
  | variable (name : String)
  | url (path : String)
  | call (name : String) (args : List Value)
  | mark (char : Char)
  | sequence (terms : List Value)
  | list (items : List Value)
deriving Inhabited

def Value.isVariable : Value → Bool
  | .variable _ => true
  | _ => false

/-- A value at its place. Two expressions with one `id` are the same expression. -/
structure Expression where
  id : Nat
  value : Value
  place : Place

mutual
def Value.render (expand : String → Except StyleError String) : Value → Except StyleError String
  | .keyword word => .ok word
  | .number value unit => .ok (value.text ++ unit.getD "")
  | .percentage value => .ok (value.text ++ "%")
  | .color text => .ok text
  | .quoted text => .ok ("\"" ++ text ++ "\"")
  | .field name => .ok ("[" ++ name ++ "]")
  | .variable name => expand name
  | .url path => .ok path
  | .mark char => .ok (String.singleton char)
  | .call name args => do return name ++ "(" ++ String.intercalate ", " (← Value.renderAll expand args) ++ ")"
  | .sequence terms => do return String.intercalate " " (← Value.renderAll expand terms)
  | .list items => do return String.intercalate ", " (← Value.renderAll expand items)

def Value.renderAll (expand : String → Except StyleError String) : List Value → Except StyleError (List String)
  | [] => .ok []
  | value :: rest => do
    let text ← Value.render expand value
    return text :: (← Value.renderAll expand rest)
end

end MapStyle
