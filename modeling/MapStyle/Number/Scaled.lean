import MapStyle.Number.Basic
/-!
Decimals read in two roundings: as many digits as a 64-bit word holds are taken as a whole number, which is rounded, and
the result is multiplied or divided by a power of ten and rounded once more.
-/
namespace MapStyle.Number.Scaled

/-- Appends digits to a number of 64 bits, up to the first that does not fit; the answer also tells how many did. -/
def absorb (word : Nat) : List Char → Nat × Nat
  | [] => (word, 0)
  | c :: cs =>
    let longer := 10 * word + Decimal.digitValue c
    if longer < twoTo 64 then
      let (word, taken) := absorb longer cs
      (word, taken + 1)
    else (word, 0)

def maxPower : Nat := 308

def powerOfTen (power : Nat) : Nat := (Format.binary64.ofDecimal? ⟨1, power⟩).getD 0

def times? (steps power : Nat) : Option Nat :=
  Format.binary64.nearest? (steps * powerOfTen power) (twoTo 1074 * twoTo 1074)

def over? (steps power : Nat) : Option Nat := Format.binary64.nearest? steps (powerOfTen power)

def scale? (steps : Nat) (exponent : Int) : Option Nat :=
  if 0 ≤ exponent then
    if exponent ≤ maxPower then times? steps exponent.toNat else if steps = 0 then some 0 else none
  else if -exponent ≤ maxPower then over? steps (-exponent).toNat
  else if steps = 0 then some 0
  else (over? steps maxPower).bind fun steps => scale? steps (exponent + maxPower)
termination_by (-exponent).toNat
decreasing_by unfold maxPower at *; omega

def ofDigits? (whole part : List Char) (exponent : Int) : Option Nat :=
  let (word, taken) := absorb 0 whole
  let left := whole.length - taken
  let (word, taken) := absorb word part
  (Format.binary64.nearest? word 1).bind fun steps => scale? steps (exponent + left - taken)

end MapStyle.Number.Scaled
