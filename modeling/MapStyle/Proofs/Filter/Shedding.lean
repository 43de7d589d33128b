import MapStyle.Proofs.Filter.Weighing
/-!
What a set holds once it has added a filter: an entry for it, and of what was there all that the filter does not shed and
the entry does not replace. The values may be any texts.
-/
namespace MapStyle
namespace Filter

/-- What a set that adds `filter` no longer holds on its key. -/
def Sheds (filter existing : Filter) : Prop :=
  match filter.op with
  | .equal => True
  | .greater => isPattern existing.op = false ∧ existing.Upto filter
  | .less => isPattern existing.op = false ∧ filter.Upto existing
  | .atLeast => (isPattern existing.op = false ∧ existing.Under filter) ∨
      (existing.op = .different ∧ existing.value = filter.value)
  | .atMost => (isPattern existing.op = false ∧ filter.Under existing) ∨
      (existing.op = .different ∧ existing.value = filter.value)
  | _ => False

end Filter

namespace FilterSet

/-- A filter, as `strict` where its own value is excluded. -/
def sharpen (set : FilterSet) (filter : Filter) (strict : Comparison) : Filter :=
  if set.contains (Filter.valueSlot filter.key .different filter.value) then { filter with op := strict } else filter

/-- The filter that a set holds after it has added `filter`. -/
def entry (set : FilterSet) (filter : Filter) : Filter :=
  match filter.op with
  | .atLeast => set.sharpen filter .greater
  | .atMost => set.sharpen filter .less
  | _ => filter

section
variable {set : FilterSet} {filter : Filter}

theorem entry_eq (set : FilterSet) (filter : Filter) : set.entry filter = filter ∨
    (filter.op = .atLeast ∧ set.entry filter = { filter with op := .greater }) ∨
    (filter.op = .atMost ∧ set.entry filter = { filter with op := .less }) := by
  cases op : filter.op <;> simp only [entry, sharpen, op] <;> try split
  all_goals simp

@[simp] theorem entry_key : (set.entry filter).key = filter.key := by
  rcases entry_eq set filter with same | ⟨-, same⟩ | ⟨-, same⟩ <;> rw [same]

@[simp] theorem entry_value : (set.entry filter).value = filter.value := by
  rcases entry_eq set filter with same | ⟨-, same⟩ | ⟨-, same⟩ <;> rw [same]

@[simp] theorem entry_source : (set.entry filter).source = filter.source := by
  rcases entry_eq set filter with same | ⟨-, same⟩ | ⟨-, same⟩ <;> rw [same]

@[simp] theorem entry_bound : (set.entry filter).bound = filter.bound := by
  exact Filter.bound_congr entry_value

@[simp] theorem entry_isNumber : (set.entry filter).IsNumber ↔ filter.IsNumber := by
  exact Filter.isNumber_congr entry_value

@[simp] theorem entry_isLower : (set.entry filter).isLower = filter.isLower := by
  rcases entry_eq set filter with same | ⟨op, same⟩ | ⟨op, same⟩ <;> simp_all [Filter.isLower]

@[simp] theorem entry_isUpper : (set.entry filter).isUpper = filter.isUpper := by
  rcases entry_eq set filter with same | ⟨op, same⟩ | ⟨op, same⟩ <;> simp_all [Filter.isUpper]

theorem entry_equal_iff : (set.entry filter).op = .equal ↔ filter.op = .equal := by
  rcases entry_eq set filter with same | ⟨op, same⟩ | ⟨op, same⟩ <;> simp_all

theorem entry_different_iff : (set.entry filter).op = .different ↔ filter.op = .different := by
  rcases entry_eq set filter with same | ⟨op, same⟩ | ⟨op, same⟩ <;> simp_all

@[simp] theorem entry_isPattern : Filter.isPattern (set.entry filter).op = Filter.isPattern filter.op := by
  rcases entry_eq set filter with same | ⟨op, same⟩ | ⟨op, same⟩ <;> simp_all [Filter.isPattern]

theorem mem_prune {order : Number → Number → Bool} {other : Filter} :
    other ∈ (set.prune filter order).filters ↔ other ∈ set.filters ∧
      (other.key = filter.key → ¬ (Filter.isPattern other.op = false ∧ other.related order filter)) := by
  rw [prune, mem_restrict]
  simp only [Bool.or_eq_true, bne_iff_ne, Bool.not_eq_true', ne_eq]
  cases Filter.isPattern other.op <;> simp [imp_iff_not_or]

end

variable {set : FilterSet} (plain : set.PlainKeys) {filter : Filter} (own : filter.PlainKey)
include plain own

theorem contains_prune {order : Number → Number → Bool}
    (irreflexive : ∀ other : Filter, other.value = filter.value → ¬ other.related order filter) :
    (set.prune filter order).contains (Filter.valueSlot filter.key .different filter.value) =
      set.contains (Filter.valueSlot filter.key .different filter.value) := by
  have pruned : (set.prune filter order).PlainKeys := fun other member => plain other (mem_prune.mp member).1
  rw [Bool.eq_iff_iff, contains_valueSlot pruned own rfl, contains_valueSlot plain own rfl]
  constructor
  · rintro ⟨other, member, rest⟩
    exact ⟨other, (mem_prune.mp member).1, rest⟩
  · rintro ⟨other, member, sameKey, op, sameValue⟩
    exact ⟨other, mem_prune.mpr ⟨member, fun _ related => irreflexive other sameValue related.2⟩, sameKey, op, sameValue⟩

theorem mem_insertBound {strict : Comparison} {other : Filter} :
    other ∈ (set.insertBound filter strict).filters ↔ other = set.sharpen filter strict ∨ (other ∈ set.filters ∧
      (other.key = filter.key → ¬ (other.op = .different ∧ other.value = filter.value)) ∧
      other.slot ≠ (set.sharpen filter strict).slot) := by
  by_cases excluded : set.contains (Filter.valueSlot filter.key .different filter.value)
  · simp only [insertBound, sharpen, excluded, ↓reduceIte, mem_insert, mem_erase, and_assoc]
    refine or_congr_right (and_congr_right fun member => and_congr_left fun _ => ?_)
    rw [ne_eq, slot_eq_valueSlot plain own member rfl, not_and]
  · simp only [insertBound, sharpen, excluded, Bool.false_eq_true, ↓reduceIte, mem_insert]
    refine or_congr_right (and_congr_right fun member => (and_iff_right ?_).symm)
    rintro sameKey ⟨op, sameValue⟩
    exact excluded ((contains_valueSlot plain own rfl).mpr ⟨other, member, sameKey, op, sameValue⟩)

theorem mem_prune_insertBound {order : Number → Number → Bool} {strict : Comparison}
    (irreflexive : ∀ other : Filter, other.value = filter.value → ¬ other.related order filter) {other : Filter} :
    other ∈ ((set.prune filter order).insertBound filter strict).filters ↔ other = set.sharpen filter strict ∨
      (other ∈ set.filters ∧ (other.key = filter.key →
        ¬ ((Filter.isPattern other.op = false ∧ other.related order filter) ∨
          (other.op = .different ∧ other.value = filter.value))) ∧ other.slot ≠ (set.sharpen filter strict).slot) := by
  have pruned : (set.prune filter order).PlainKeys := fun other member => plain other (mem_prune.mp member).1
  -- pruning keeps an exclusion of the bound itself, so that the bound is sharpened as before
  have sameEntry : (set.prune filter order).sharpen filter strict = set.sharpen filter strict := by
    rw [sharpen, contains_prune plain own irreflexive, sharpen]
  rw [mem_insertBound pruned own, sameEntry, mem_prune, and_assoc]
  refine or_congr_right (and_congr_right fun _ => ?_)
  rw [← and_assoc, ← imp_and, not_or]

theorem mem_add {other : Filter} :
    other ∈ (set.add filter).filters ↔ other = set.entry filter ∨ (other ∈ set.filters ∧
      (other.key = filter.key → ¬ filter.Sheds other) ∧ other.slot ≠ (set.entry filter).slot) := by
  have notBelow : ∀ other : Filter, other.value = filter.value → ¬ other.Under filter ∧ ¬ filter.Under other := by
    intro other sameValue
    simp [Filter.Under, Filter.bound_congr sameValue]
  cases op : filter.op with
  | equal =>
    simp only [add, op, entry, Filter.Sheds, mem_insert, mem_restrict, and_assoc]
    simp
  | different => simp [add, op, entry, Filter.Sheds, mem_insert]
  | regex => simp [add, op, entry, Filter.Sheds, mem_insert]
  | modulo => simp [add, op, entry, Filter.Sheds, mem_insert]
  | greater => simp [add, op, entry, Filter.Sheds, mem_insert, mem_prune, and_assoc, Filter.related_le_iff]
  | less => simp [add, op, entry, Filter.Sheds, mem_insert, mem_prune, and_assoc, Filter.related_atLeast_iff]
  | atLeast =>
    simp only [add, op, entry, Filter.Sheds]
    rw [mem_prune_insertBound plain own fun other same => by
      rw [Filter.related_lt_iff]; exact (notBelow other same).1, Filter.related_lt_iff]
  | atMost =>
    simp only [add, op, entry, Filter.Sheds]
    rw [mem_prune_insertBound plain own fun other same => by
      rw [Filter.related_above_iff]; exact (notBelow other same).2, Filter.related_above_iff]

omit plain in
theorem entry_plainKey : (set.entry filter).PlainKey := by
  rw [Filter.PlainKey, entry_key]
  exact own

theorem add_plainKeys : (set.add filter).PlainKeys := by
  intro other member
  rcases (mem_add plain own).mp member with same | ⟨inside, -⟩
  · exact same ▸ entry_plainKey own
  · exact plain other inside

/-- An inclusive bound is sharpened exactly where its value is excluded. -/
theorem entry_cases :
    (set.entry filter = filter ∧ (filter.op = .atLeast ∨ filter.op = .atMost → ∀ other ∈ set.filters,
      other.key = filter.key → other.op = .different → other.value ≠ filter.value)) ∨
    (∃ op, set.entry filter = { filter with op } ∧ ((filter.op = .atLeast ∧ op = .greater) ∨
      (filter.op = .atMost ∧ op = .less)) ∧ ∃ other ∈ set.filters, other.key = filter.key ∧ other.op = .different ∧
      other.value = filter.value) := by
  have excluded := contains_valueSlot plain own (show Filter.isPerValue .different from rfl)
  by_cases inclusive : filter.op = .atLeast ∨ filter.op = .atMost
  · by_cases isExcluded : set.contains (Filter.valueSlot filter.key .different filter.value)
    · refine Or.inr ?_
      rcases inclusive with op | op
      · exact ⟨.greater, by simp [entry, op, sharpen, isExcluded], Or.inl ⟨op, rfl⟩, excluded.mp isExcluded⟩
      · exact ⟨.less, by simp [entry, op, sharpen, isExcluded], Or.inr ⟨op, rfl⟩, excluded.mp isExcluded⟩
    · refine Or.inl ⟨by rcases inclusive with op | op <;> simp [entry, op, sharpen, isExcluded], ?_⟩
      intro _ other member sameKey op sameValue
      exact isExcluded (excluded.mpr ⟨other, member, sameKey, op, sameValue⟩)
  · refine Or.inl ⟨?_, fun held => absurd held inclusive⟩
    cases op : filter.op <;> simp_all [entry]

end FilterSet
end MapStyle
