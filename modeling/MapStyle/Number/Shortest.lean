import MapStyle.Number.Basic
/-!
The text of a number: the fewest digits that read back as the same number, and among those the nearest.
All quantities are whole numbers of `10 ^ -1075`, in which a step, half a step and every power of ten that
matters are whole.
-/
namespace MapStyle.Number

def gap (steps : Nat) : Nat := twoTo (steps.log2 + 1 - 53)

def lowerReach (steps : Nat) : Nat :=
  if 1 < gap steps && steps = twoTo steps.log2 then gap steps else 2 * gap steps

/-- The decimals `low .. high`, ends included or not, that read back as one number. -/
structure Cell where
  low : Nat
  high : Nat
  closed : Bool

def Cell.holds (c : Cell) (x : Nat) : Bool :=
  if c.closed then c.low ≤ x && x ≤ c.high else c.low < x && x < c.high

def exact (steps : Nat) : Nat := steps * Nat.pow 5 1074 * 100

def quarter : Nat := Nat.pow 5 1074 * 25

def cell (steps : Nat) : Cell :=
  ⟨exact steps - lowerReach steps * quarter, exact steps + 2 * gap steps * quarter, steps / gap steps % 2 = 0⟩

/-- The multiple of `unit` to write for `x`: one of its two neighbours, if the cell holds one; of two the nearer,
and the larger when both are as near. -/
def pick? (c : Cell) (x unit : Nat) : Option Nat :=
  let down := x / unit
  let up := down + 1
  match c.holds (down * unit), c.holds (up * unit) with
  | true, true => some (if 2 * (x % unit) < unit then down else up)
  | true, false => some down
  | false, true => some up
  | false, false => none

def search (c : Cell) (x size : Nat) : (left digits : Nat) → Decimal
  | 0, _ => ⟨x, -1076⟩
  | left + 1, digits =>
    match pick? c x (tenTo (size - digits)) with
    | some n => ⟨n, (size - digits : Nat) - (1076 : Int)⟩
    | none => search c x size left (digits + 1)

def shortest (steps : Nat) : Decimal :=
  if steps = 0 then ⟨0, 0⟩
  else (search (cell steps) (exact steps) (Decimal.digitCount (exact steps)) 17 1).normalize

def text : Number → String
  | .nan => "NaN"
  | .infinite negative => if negative then "-inf" else "inf"
  | .finite negative steps => (if negative then "-" else "") ++ (shortest steps).positional

end MapStyle.Number
