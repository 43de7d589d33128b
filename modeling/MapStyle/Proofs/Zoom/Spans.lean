import Mathlib.Logic.Basic
import MapStyle.Zoom
/-!
The spans of a set of levels cover each of its levels once, and no other.
-/
namespace MapStyle
namespace Zoom

def Span.covers (span : Span) (level : Nat) : Bool := decide (span.first ≤ level) && decide (level ≤ span.last)

section runs
variable {visible : Nat → Bool} {next level : Nat} {rest : List Nat}

theorem runs_open (seen : visible next) : runs visible Option.none (next :: rest) = runs visible (some next) rest := by
  simp [runs, seen]

theorem runs_close {first : Nat} (unseen : visible next = false) :
    runs visible (some first) (next :: rest) = ⟨first, next - 1⟩ :: runs visible Option.none rest := by
  simp [runs, unseen]

theorem runs_go {start : Option Nat} (same : start.isSome = visible next) :
    runs visible start (next :: rest) = runs visible start rest := by
  cases start <;> simp_all [runs]

/-- A level from which on the runs are taken is covered where it is visible, one before it where a run has begun. -/
theorem runs_countP (isLevel : level ≤ maxLevel) {start : Option Nat} {count : Nat}
    (begun : ∀ first ∈ start, first < next) (toEnd : next + count = levels) :
    (runs visible start (List.range' next count)).countP (·.covers level) =
      if (level < next ∧ ∃ first ∈ start, first ≤ level) ∨ (next ≤ level ∧ visible level) then 1 else 0 := by
  have isLast : levels = maxLevel + 1 := rfl
  induction count generalizing start next with
  | zero =>
    have before : level < next := by omega
    have past : ¬ next ≤ level := by omega
    cases start <;> simp [runs, Span.covers, isLevel, before, past]
  | succ count ih =>
    rw [List.range'_succ]
    have later : next + 1 ≤ level ↔ next ≤ level ∧ level ≠ next := by omega
    have sooner : level < next + 1 ↔ level < next ∨ level = next := by omega
    -- at `next` nothing changes, or a run begins, or the one that has begun ends
    by_cases go : start.isSome = visible next
    · rw [runs_go go, ih (fun first isStart => Nat.lt_succ_of_lt (begun first isStart)) (by omega)]
      refine if_congr ?_ rfl rfl
      by_cases same : level = next
      · cases start with
        | none => simp_all
        | some first => simp_all; omega
      · simp [later, sooner, same]
    · cases start with
      | none =>
        rw [runs_open (by simpa using go), ih (by simp) (by omega)]
        refine if_congr ?_ rfl rfl
        by_cases same : level = next
        · simp_all
        · simp [later, same]
          omega
      | some first =>
        have early : first < next := begun first rfl
        rw [runs_close (by simpa using go), List.countP_cons, ih (by simp) (by omega)]
        by_cases before : level < next
        · have closed : (level ≤ next - 1) := by omega
          have past : ¬ next + 1 ≤ level := by omega
          have notYet : ¬ next ≤ level := by omega
          simp [Span.covers, before, past, closed, notYet]
        · have closed : ¬ level ≤ next - 1 := by omega
          by_cases same : level = next
          · simp_all [Span.covers]
          · simp [Span.covers, closed, before, later, same]

end runs

theorem spans_countP (zoom : Zoom) {level : Nat} (isLevel : level < levels) :
    zoom.spans.countP (·.covers level) = if zoom.contains level then 1 else 0 := by
  rw [spans, List.range_eq_range', runs_countP (Nat.le_of_lt_succ isLevel) (by simp) (by simp)]
  simp

end Zoom
end MapStyle
