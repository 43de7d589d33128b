import MapStyle.Number.Decimal
/-!
Binary floating-point numbers, kept as exact multiples of the smallest step, so that comparing two of them is
comparing integers. Reading rounds a decimal to the nearest number, a half to the even neighbour.
-/
namespace MapStyle

/-- A floating-point format: `precision` significant bits, steps of `2 ^ -scale`, magnitudes below `2 ^ limit`. -/
structure Format where
  precision : Nat
  scale : Nat
  limit : Nat

def Format.binary64 : Format := ⟨53, 1074, 1024⟩

def Format.binary32 : Format := ⟨24, 149, 128⟩

def roundDiv (num den : Nat) : Nat :=
  let q := num / den
  let r := 2 * (num % den)
  if r < den then q else if den < r then q + 1 else q + q % 2

def Format.nearest? (f : Format) (num den : Nat) : Option Nat :=
  let shift := (num * twoTo f.scale / den).log2 + 1 - f.precision
  let steps := roundDiv (num * twoTo f.scale) (den * twoTo shift) * twoTo shift
  if steps < twoTo (f.limit + f.scale) then some steps else none

/-- The steps nearest to a decimal. Beyond `10 ^ 400` everything is too large and below `10 ^ -400` everything
is nearest to zero, in either format. -/
def Format.ofDecimal? (f : Format) (d : Decimal) : Option Nat :=
  let magnitude := Decimal.digitCount d.coefficient + d.exponent
  if d.coefficient = 0 || magnitude < -400 then some 0
  else if 400 < magnitude then none
  else if 0 ≤ d.exponent then f.nearest? (d.coefficient * tenTo d.exponent.toNat) 1
  else f.nearest? d.coefficient (tenTo (-d.exponent).toNat)

/-- A number of the 64-bit format: `finite negative steps` is `± steps * 2 ^ -1074`, zero having two signs. -/
inductive Number where
  | nan
  | infinite (negative : Bool)
  | finite (negative : Bool) (steps : Nat)
deriving DecidableEq

namespace Number

def zero : Number := .finite false 0

def ofNat (n : Nat) : Number := .finite false (n * twoTo 1074)

def signed (negative : Bool) (steps : Nat) : Int := if negative then -(steps : Int) else steps

def le : Number → Number → Bool
  | .nan, _ => false
  | _, .nan => false
  | .infinite true, _ => true
  | _, .infinite false => true
  | .infinite false, _ => false
  | _, .infinite true => false
  | .finite s a, .finite t b => signed s a ≤ signed t b

def lt (a b : Number) : Bool := a.le b && !b.le a

def toInt? : Number → Option Int
  | .finite negative steps => if steps % twoTo 1074 = 0 then some (signed negative (steps / twoTo 1074)) else none
  | _ => none

def readWord? (word : String) : Option (Bool → Number) :=
  if word = "inf" || word = "infinity" then some .infinite
  else if word = "nan" then some fun _ => .nan
  else none

def readChars? (cs : List Char) : Option Number :=
  let (negative, rest) := Decimal.splitSign cs
  match Decimal.read? rest with
  | some d => some (match Format.binary64.ofDecimal? d with
    | some steps => .finite negative steps
    | none => .infinite negative)
  | none => (readWord? (String.ofList (rest.map Char.toLower))).map (· negative)

def read? (s : String) : Option Number := readChars? s.toList

end Number
end MapStyle
