import MapStyle.Text.Characters
import MapStyle.Value.Scope
/-!
A single filter `[key op value]`, its value evaluated to text. Where the text is a number, filters are compared as
numbers.
-/
namespace MapStyle

/-- A comparison of a feature's attribute with a value; `source` is the expression that the value came from. -/
structure Filter where
  key : String
  op : Comparison
  value : String
  source : Option Expression

namespace Filter

def ofText (key : String) (op : Comparison) (value : String) : Filter := ⟨key, op, value, none⟩

def resolve (key : String) (op : Comparison) (source : Expression) (scope : Scope) : Except StyleError Filter := do
  return ⟨key, op, ← scope.evaluate source, some source⟩

def numeric (filter : Filter) : Option Number := Number.read? (Text.trim filter.value)

def text (filter : Filter) : String := "[" ++ filter.key ++ "]" ++ filter.op.symbol ++ filter.value

def valueSlot (key : String) (op : Comparison) (value : String) : String := key ++ op.symbol ++ value

def keySlot (key : String) (op : Comparison) : String := key ++ op.symbol

/-- Whether a set holds one such comparison for each value, and not just one for the key. -/
def isPerValue : Comparison → Bool
  | .different | .regex | .modulo => true
  | _ => false

def isPattern : Comparison → Bool
  | .regex | .modulo => true
  | _ => false

def slot (filter : Filter) : String :=
  if isPerValue filter.op then valueSlot filter.key filter.op filter.value else keySlot filter.key filter.op

def same (a b : Filter) : Bool := a.key == b.key && a.op == b.op && a.value == b.value

def related (order : Number → Number → Bool) (a b : Filter) : Bool :=
  match a.numeric, b.numeric with
  | some x, some y => order x y
  | _, _ => false

def place? (filter : Filter) : Option Place := filter.source.map Expression.place

end Filter
end MapStyle
