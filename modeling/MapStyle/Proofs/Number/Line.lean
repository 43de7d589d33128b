import Mathlib.Data.EReal.Basic
import MapStyle.Number.Basic
/-!
Numbers on the extended real line. Comparing numbers is comparing their positions there, so that statements about what
a comparison accepts can speak of every real number, and not of those alone that have a binary form.
-/
namespace MapStyle.Number

/-- The place of a number on the line; what is not a number has none, and `0` stands in for it. -/
noncomputable def position : Number → EReal
  | .nan => 0
  | .infinite true => ⊥
  | .infinite false => ⊤
  | .finite negative steps => ((signed negative steps / 2 ^ 1074 : ℝ) : EReal)

theorem position_finite_le (s t : Bool) (a b : Nat) :
    position (.finite s a) ≤ position (.finite t b) ↔ signed s a ≤ signed t b := by
  have scale : (0 : ℝ) < 2 ^ 1074 := by positivity
  rw [position, position, EReal.coe_le_coe_iff, div_le_div_iff_of_pos_right scale, Int.cast_le]

theorem le_iff_position {a b : Number} (left : a ≠ .nan) (right : b ≠ .nan) :
    a.le b ↔ a.position ≤ b.position := by
  cases a with
  | nan => exact absurd rfl left
  | infinite s =>
    cases b with
    | nan => exact absurd rfl right
    | infinite t => cases s <;> cases t <;> simp [le, position]
    | finite t b => cases s <;> simp [le, position]
  | finite s a =>
    cases b with
    | nan => exact absurd rfl right
    | infinite t => cases t <;> simp [le, position]
    | finite t b => rw [position_finite_le]; simp [le]

theorem lt_iff_position {a b : Number} (left : a ≠ .nan) (right : b ≠ .nan) :
    a.lt b ↔ a.position < b.position := by
  rw [lt, Bool.and_eq_true, Bool.not_eq_true', ← Bool.not_eq_true, le_iff_position left right,
    le_iff_position right left, lt_iff_le_not_ge]

end MapStyle.Number
