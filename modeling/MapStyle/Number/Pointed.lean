import MapStyle.Number.Shortest
/-!
The text of a number that shows that it need not be whole: it has a point or an exponent.
-/
namespace MapStyle

namespace Decimal

def magnitude (d : Decimal) : Int := digitCount d.coefficient - 1 + d.exponent

def scientific (d : Decimal) : String :=
  let digits := toString d.coefficient
  let places := digits.length - 1
  (if places = 0 then digits else withPoint digits places) ++ "e" ++ (if d.magnitude < 0 then "" else "+") ++
    toString d.magnitude

/-- Positional where the first digit stands for `10 ^ -5` to `10 ^ 15`, and then always with a point. -/
def pointed (d : Decimal) : String :=
  if d.coefficient = 0 then "0.0"
  else if d.magnitude < -5 || 15 < d.magnitude then d.scientific
  else if 0 ≤ d.exponent then d.positional ++ ".0"
  else d.positional

end Decimal

def Number.pointed : Number → String
  | .finite negative steps => (if negative then "-" else "") ++ (shortest steps).pointed
  | number => number.text

end MapStyle
