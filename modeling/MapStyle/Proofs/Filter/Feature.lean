import Mathlib.Data.Set.Basic
import MapStyle.Filter.Set
import MapStyle.Proofs.Number.Line
import MapStyle.Proofs.Number.Spelling
/-!
What filters mean. A feature assigns a number to each key; a filter accepts a feature when its comparison holds of the
number under its key, and a set accepts what all of its filters accept.
-/
namespace MapStyle

/-- The numbers of a feature's attributes, any real number and both infinities among them. -/
abbrev Feature := String → EReal

def Comparison.holds (op : Comparison) (actual value : EReal) : Prop :=
  match op with
  | .equal => actual = value
  | .different => actual ≠ value
  | .greater => value < actual
  | .atLeast => value ≤ actual
  | .less => actual < value
  | .atMost => actual ≤ value
  | .regex | .modulo => False

/-- Texts of numbers, one text for each number. -/
structure OneText (values : Set String) : Prop where
  isNumber : ∀ text ∈ values, ∃ number, Number.read? (Text.trim text) = some number ∧ number ≠ .nan
  unique : ∀ a ∈ values, ∀ b ∈ values, ∀ x y, Number.read? (Text.trim a) = some x →
    Number.read? (Text.trim b) = some y → x.le y → y.le x → a = b

theorem OneText.singleton {text : String} {number : Number} (reads : Number.read? (Text.trim text) = some number)
    (notNan : number ≠ .nan) : OneText {text} where
  isNumber := by
    rintro other rfl
    exact ⟨number, reads, notNan⟩
  unique := by
    rintro a rfl b rfl x y - - - -
    rfl

namespace Filter

def accepts (filter : Filter) (feature : Feature) : Prop :=
  ∃ number, filter.numeric = some number ∧ filter.op.holds (feature filter.key) number.position

def isOperatorChar (c : Char) : Bool := ['=', '!', '<', '>', '~', '%'].contains c

/-- A comparison with a number of `values`, its key free of operators. -/
structure Compares (values : Set String) (filter : Filter) : Prop where
  notPattern : isPattern filter.op = false
  plainKey : ∀ c ∈ filter.key.toList, isOperatorChar c = false
  value : filter.value ∈ values

/-- The place on the line of the value. -/
noncomputable def bound (filter : Filter) : EReal := (filter.numeric.getD .nan).position

/-- No character of the key belongs to an operator. -/
def PlainKey (filter : Filter) : Prop := ∀ c ∈ filter.key.toList, isOperatorChar c = false

def IsNumber (filter : Filter) : Prop := ∃ number, filter.numeric = some number ∧ number ≠ .nan

def Upto (a b : Filter) : Prop := a.IsNumber ∧ b.IsNumber ∧ a.bound ≤ b.bound

def Under (a b : Filter) : Prop := a.IsNumber ∧ b.IsNumber ∧ a.bound < b.bound

theorem isNumber_iff {filter : Filter} {number : Number} (reads : filter.numeric = some number) :
    filter.IsNumber ↔ number ≠ .nan := by
  simp [IsNumber, reads]

theorem bound_of_numeric {filter : Filter} {number : Number} (reads : filter.numeric = some number) :
    filter.bound = number.position := by
  rw [bound, reads]
  rfl

theorem bound_congr {a b : Filter} (same : a.value = b.value) : a.bound = b.bound := by
  rw [bound, bound, numeric, numeric, same]

theorem isNumber_congr {a b : Filter} (same : a.value = b.value) : a.IsNumber ↔ b.IsNumber := by
  rw [IsNumber, IsNumber, numeric, numeric, same]

theorem IsNumber.accepts_iff {filter : Filter} (isNumber : filter.IsNumber) (feature : Feature) :
    filter.accepts feature ↔ filter.op.holds (feature filter.key) filter.bound := by
  obtain ⟨number, reads, -⟩ := isNumber
  simp [accepts, reads, bound_of_numeric reads]

theorem related_swap (order : Number → Number → Bool) (a b : Filter) :
    a.related (fun x y => order y x) b = b.related order a := by
  unfold related
  cases a.numeric <;> cases b.numeric <;> rfl

theorem related_le_iff (a b : Filter) : a.related Number.le b ↔ a.Upto b := by
  unfold related Upto
  cases left : a.numeric with
  | none => simp [IsNumber, left]
  | some x =>
    cases right : b.numeric with
    | none => simp [IsNumber, right]
    | some y =>
      rw [isNumber_iff left, isNumber_iff right, bound_of_numeric left, bound_of_numeric right]
      by_cases leftNan : x = .nan
      · simp [leftNan, Number.le]
      · by_cases rightNan : y = .nan
        · have unordered : x.le .nan = false := by cases x <;> rfl
          simp [rightNan, unordered]
        · simp [leftNan, rightNan, Number.le_iff_position leftNan rightNan]

theorem related_lt_iff (a b : Filter) : a.related Number.lt b ↔ a.Under b := by
  have both : a.related Number.lt b ↔ a.related Number.le b ∧ ¬ b.related Number.le a := by
    unfold related
    cases a.numeric <;> cases b.numeric <;> simp [Number.lt]
  rw [both, related_le_iff, related_le_iff]
  unfold Upto Under
  constructor
  · rintro ⟨⟨left, right, -⟩, notBack⟩
    exact ⟨left, right, not_le.mp fun back => notBack ⟨right, left, back⟩⟩
  · rintro ⟨left, right, below⟩
    exact ⟨⟨left, right, below.le⟩, fun back => absurd back.2.2 (not_le.mpr below)⟩

theorem related_atLeast_iff (a b : Filter) : a.related FilterSet.atLeast b ↔ b.Upto a := by
  rw [show FilterSet.atLeast = fun x y => Number.le y x from rfl, related_swap, related_le_iff]

theorem related_above_iff (a b : Filter) : a.related FilterSet.above b ↔ b.Under a := by
  rw [show FilterSet.above = fun x y => Number.lt y x from rfl, related_swap, related_lt_iff]

/-- A comparison with a number, its key free of operators. -/
structure Measures (filter : Filter) : Prop where
  notPattern : isPattern filter.op = false
  plainKey : filter.PlainKey
  isNumber : filter.IsNumber

end Filter

namespace FilterSet

def accepts (set : FilterSet) (feature : Feature) : Prop := ∀ filter ∈ set.filters, filter.accepts feature

def Compares (values : Set String) (set : FilterSet) : Prop := ∀ filter ∈ set.filters, filter.Compares values

end FilterSet

namespace Filter
variable {values : Set String} (one : OneText values)
include one

theorem Compares.numeric {filter : Filter} (compares : filter.Compares values) :
    ∃ number, filter.numeric = some number ∧ number ≠ .nan ∧ filter.bound = number.position := by
  obtain ⟨number, read, notNan⟩ := one.isNumber _ compares.value
  have reads : filter.numeric = some number := read
  exact ⟨number, reads, notNan, bound_of_numeric reads⟩

theorem Compares.measures {filter : Filter} (compares : filter.Compares values) : filter.Measures where
  notPattern := compares.notPattern
  plainKey := compares.plainKey
  isNumber := one.isNumber _ compares.value

theorem Compares.accepts_iff {filter : Filter} (compares : filter.Compares values) (feature : Feature) :
    filter.accepts feature ↔ filter.op.holds (feature filter.key) filter.bound :=
  (compares.measures one).isNumber.accepts_iff feature

theorem Compares.upto_iff {a b : Filter} (left : a.Compares values) (right : b.Compares values) :
    a.Upto b ↔ a.bound ≤ b.bound := by
  simp [Upto, (left.measures one).isNumber, (right.measures one).isNumber]

theorem Compares.under_iff {a b : Filter} (left : a.Compares values) (right : b.Compares values) :
    a.Under b ↔ a.bound < b.bound := by
  simp [Under, (left.measures one).isNumber, (right.measures one).isNumber]

theorem Compares.value_eq_iff {a b : Filter} (left : a.Compares values) (right : b.Compares values) :
    a.value = b.value ↔ a.bound = b.bound := by
  constructor
  · exact bound_congr
  · intro same
    obtain ⟨x, readsLeft, notNanLeft, atLeft⟩ := left.numeric one
    obtain ⟨y, readsRight, notNanRight, atRight⟩ := right.numeric one
    have below : x.position ≤ y.position := by rw [← atLeft, ← atRight, same]
    have above : y.position ≤ x.position := by rw [← atLeft, ← atRight, same]
    exact one.unique _ left.value _ right.value x y readsLeft readsRight
      ((Number.le_iff_position notNanLeft notNanRight).mpr below)
      ((Number.le_iff_position notNanRight notNanLeft).mpr above)

theorem Compares.plainValue {filter : Filter} (compares : filter.Compares values) :
    ∀ c ∈ filter.value.toList, Text.isBlank c ∨ Number.isTextChar c := by
  obtain ⟨number, reads, -⟩ := compares.numeric one
  exact Number.read_trim_chars reads

end Filter
end MapStyle
