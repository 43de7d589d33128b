/-!
Powers of two and of ten, and decimal numbers as they are written: a coefficient and a power of ten. `Decimal.read?`
holds the grammar, `Decimal.positional` writes one without an exponent.
-/
namespace MapStyle

def twoTo (n : Nat) : Nat := Nat.pow 2 n

def tenTo (n : Nat) : Nat := Nat.pow 10 n

/-- The number `coefficient * 10 ^ exponent`. -/
structure Decimal where
  coefficient : Nat
  exponent : Int
deriving DecidableEq

namespace Decimal

def digitValue (c : Char) : Nat := c.toNat - '0'.toNat

def digitsValue (cs : List Char) : Nat := cs.foldl (fun n c => 10 * n + digitValue c) 0

def readNatural? (cs : List Char) : Option Nat :=
  let digits := match cs with
    | '+' :: rest => rest
    | cs => cs
  if digits.isEmpty || !digits.all Char.isDigit then none else some (digitsValue digits)

def digitCount (n : Nat) : Nat := if n < 10 then 1 else digitCount (n / 10) + 1

def splitSign : List Char → Bool × List Char
  | '-' :: cs => (true, cs)
  | '+' :: cs => (false, cs)
  | cs => (false, cs)

def readExponent? : List Char → Option Int
  | [] => some 0
  | c :: cs =>
    if c != 'e' && c != 'E' then none
    else
      let (negative, ds) := splitSign cs
      if ds.isEmpty || !ds.all Char.isDigit then none
      else some (if negative then -(digitsValue ds : Int) else digitsValue ds)

/-- Digits with at most one point among them, at least one digit, then perhaps an exponent. -/
def read? (cs : List Char) : Option Decimal :=
  let whole := cs.takeWhile Char.isDigit
  let rest := cs.dropWhile Char.isDigit
  let (part, rest) := match rest with
    | '.' :: ds => (ds.takeWhile Char.isDigit, ds.dropWhile Char.isDigit)
    | ds => ([], ds)
  if whole.isEmpty && part.isEmpty then none
  else (readExponent? rest).map fun e => ⟨digitsValue (whole ++ part), e - part.length⟩

def normalize (d : Decimal) : Decimal :=
  if h : d.coefficient ≠ 0 ∧ d.coefficient % 10 = 0 then
    normalize ⟨d.coefficient / 10, d.exponent + 1⟩
  else d
termination_by d.coefficient
decreasing_by omega

def zeros (n : Nat) : String := String.ofList (List.replicate n '0')

/-- The digits of `digits` with a point before the last `places` of them, zeros put in front where they are too few. -/
def withPoint (digits : String) (places : Nat) : String :=
  let size := digits.length
  if places < size then (digits.take (size - places)).toString ++ "." ++ (digits.drop (size - places)).toString
  else "0." ++ zeros (places - size) ++ digits

def positional (d : Decimal) : String :=
  let digits := toString d.coefficient
  if d.coefficient = 0 then "0"
  else if 0 ≤ d.exponent then digits ++ zeros d.exponent.toNat
  else withPoint digits (-d.exponent).toNat

end Decimal
end MapStyle
