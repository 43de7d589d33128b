import MapStyle.Proofs.Filter.Slot
/-!
Verdicts on filters with any values. What a set says about one more filter comes down to pairs: one of its filters
refutes the new one, or covers it, or none does either. Both relations are tables over the two operators; only numbers
are compared by order, and everything else by its text.
-/
namespace MapStyle
namespace Filter

def isLower (filter : Filter) : Bool :=
  match filter.op with
  | .greater | .atLeast => true
  | _ => false

def isUpper (filter : Filter) : Bool :=
  match filter.op with
  | .less | .atMost => true
  | _ => false

def Excludes (existing filter : Filter) : Prop :=
  match existing.op with
  | .different => existing.value = filter.value
  | .greater => filter.Upto existing
  | .atLeast => filter.Under existing
  | .less => existing.Upto filter
  | .atMost => existing.Under filter
  | _ => False

def Refutes (existing filter : Filter) : Prop :=
  match filter.op, existing.op with
  | .equal, .equal => existing.value ≠ filter.value
  | .equal, _ => existing.Excludes filter
  | .different, .equal => existing.value = filter.value
  | .greater, .equal | .greater, .less | .greater, .atMost | .atLeast, .less => existing.Upto filter
  | .atLeast, .equal | .atLeast, .atMost => existing.Under filter
  | .less, .equal | .less, .greater | .less, .atLeast | .atMost, .greater => filter.Upto existing
  | .atMost, .equal | .atMost, .atLeast => filter.Under existing
  | _, _ => False

def Covers (existing filter : Filter) : Prop :=
  match filter.op, existing.op with
  | .equal, .equal | .regex, .regex | .modulo, .modulo => existing.value = filter.value
  | .different, .equal => existing.value ≠ filter.value
  | .different, _ => existing.Excludes filter
  | .greater, .equal => ¬ existing.Upto filter
  | .atLeast, .equal => ¬ existing.Under filter
  | .less, .equal => ¬ filter.Upto existing
  | .atMost, .equal => ¬ filter.Under existing
  | .greater, .greater | .atLeast, .greater | .atLeast, .atLeast => filter.Upto existing
  | .greater, .atLeast => filter.Under existing
  | .less, .less | .atMost, .less | .atMost, .atMost => existing.Upto filter
  | .less, .atMost => existing.Under filter
  | _, _ => False

end Filter

namespace FilterSet

/-- What a verdict tells about the filters on the same key. -/
inductive Weighed (set : FilterSet) (filter : Filter) : Verdict → Prop where
  | contradicts (other : Filter) (member : other ∈ set.filters) (sameKey : other.key = filter.key)
      (refutes : other.Refutes filter) : Weighed set filter .contradicts
  | implied (other : Filter) (member : other ∈ set.filters) (sameKey : other.key = filter.key)
      (covers : other.Covers filter) : Weighed set filter .implied
  | narrows (free : ∀ other ∈ set.filters, other.key = filter.key →
      ¬ other.Refutes filter ∧ ¬ other.Covers filter) : Weighed set filter .narrows

variable {set : FilterSet} (plain : set.PlainKeys) {filter : Filter} (own : filter.PlainKey)
include plain own

theorem bounds_iff (op : Comparison) (perKey : Filter.isPerValue op = false) (order : Number → Number → Bool) :
    set.bounds op order filter ↔
      ∃ other ∈ set.filters, other.key = filter.key ∧ other.op = op ∧ other.related order filter := by
  unfold bounds
  constructor
  · intro holds
    split at holds
    · next other found =>
      have isThere := (get?_keySlot plain own perKey).mp found
      exact ⟨other, isThere.1, isThere.2.1, isThere.2.2, holds⟩
    · simp at holds
  · rintro ⟨other, member, sameKey, sameOp, related⟩
    rw [(get?_keySlot plain own perKey).mpr ⟨member, sameKey, sameOp⟩]
    exact related

theorem excludes_iff : set.excludes filter ↔
    ∃ other ∈ set.filters, other.key = filter.key ∧ other.Excludes filter := by
  have exclusion := contains_valueSlot plain own (show Filter.isPerValue .different from rfl)
  rw [excludes]
  simp only [Bool.or_eq_true, exclusion, bounds_iff plain own .greater rfl,
    bounds_iff plain own .less rfl, bounds_iff plain own .atLeast rfl, bounds_iff plain own .atMost rfl,
    Filter.related_le_iff, Filter.related_lt_iff, Filter.related_atLeast_iff, Filter.related_above_iff]
  constructor
  · rintro ((((⟨g, member, sameKey, op, holds⟩ | ⟨g, member, sameKey, op, holds⟩) | ⟨g, member, sameKey, op, holds⟩) |
      ⟨g, member, sameKey, op, holds⟩) | ⟨g, member, sameKey, op, holds⟩) <;>
      exact ⟨g, member, sameKey, by simpa only [Filter.Excludes, op] using holds⟩
  · rintro ⟨g, member, sameKey, holds⟩
    cases op : g.op <;> simp only [Filter.Excludes, op] at holds
    · exact Or.inl (Or.inl (Or.inl (Or.inl ⟨g, member, sameKey, op, holds⟩)))
    · exact Or.inl (Or.inl (Or.inl (Or.inr ⟨g, member, sameKey, op, holds⟩)))
    · exact Or.inl (Or.inr ⟨g, member, sameKey, op, holds⟩)
    · exact Or.inl (Or.inl (Or.inr ⟨g, member, sameKey, op, holds⟩))
    · exact Or.inr ⟨g, member, sameKey, op, holds⟩

theorem bounds_or_iff {first second : Comparison} {firstOrder secondOrder : Number → Number → Bool}
    (isFirst : Filter.isPerValue first = false ∧ first ≠ .equal)
    (isSecond : Filter.isPerValue second = false ∧ second ≠ .equal) {relation : Filter → Prop}
    (onFirst : ∀ other : Filter, other.op = first → (relation other ↔ other.related firstOrder filter))
    (onSecond : ∀ other : Filter, other.op = second → (relation other ↔ other.related secondOrder filter))
    (onOthers : ∀ other : Filter, other.op ≠ .equal → other.op ≠ first → other.op ≠ second → ¬ relation other) :
    (set.bounds first firstOrder filter || set.bounds second secondOrder filter) ↔
      ∃ other ∈ set.filters, other.key = filter.key ∧ other.op ≠ .equal ∧ relation other := by
  rw [Bool.or_eq_true, bounds_iff plain own first isFirst.1, bounds_iff plain own second isSecond.1]
  constructor
  · rintro (⟨g, member, sameKey, op, related⟩ | ⟨g, member, sameKey, op, related⟩)
    · exact ⟨g, member, sameKey, op ▸ isFirst.2, (onFirst g op).mpr related⟩
    · exact ⟨g, member, sameKey, op ▸ isSecond.2, (onSecond g op).mpr related⟩
  · rintro ⟨g, member, sameKey, notEqual, holds⟩
    by_cases atFirst : g.op = first
    · exact Or.inl ⟨g, member, sameKey, atFirst, (onFirst g atFirst).mp holds⟩
    · by_cases atSecond : g.op = second
      · exact Or.inr ⟨g, member, sameKey, atSecond, (onSecond g atSecond).mp holds⟩
      · exact absurd holds (onOthers g notEqual atFirst atSecond)

/-- An order comparison is judged by the equality on its key, if there is one, and by the bounds otherwise. -/
theorem judgeBound_weighed {fails : Number → Number → Bool} {contradicted implied : Bool}
    (byEquality : ∀ other : Filter, other.op = .equal →
      (other.Refutes filter ↔ other.related fails filter) ∧ (other.Covers filter ↔ ¬ other.related fails filter))
    (contradictedIff : contradicted ↔
      ∃ other ∈ set.filters, other.key = filter.key ∧ other.op ≠ .equal ∧ other.Refutes filter)
    (impliedIff : implied ↔
      ∃ other ∈ set.filters, other.key = filter.key ∧ other.op ≠ .equal ∧ other.Covers filter) :
    Weighed set filter (set.judgeBound filter fails contradicted implied) := by
  unfold judgeBound
  cases found : set.get? (Filter.keySlot filter.key .equal) with
  | some equality =>
    have isThere := (get?_keySlot plain own rfl).mp found
    have settled := byEquality equality isThere.2.2
    by_cases related : equality.related fails filter
    · simp only [related, ↓reduceIte]
      exact .contradicts equality isThere.1 isThere.2.1 (settled.1.mpr related)
    · simp only [related, Bool.false_eq_true, ↓reduceIte]
      exact .implied equality isThere.1 isThere.2.1 (settled.2.mpr related)
  | none =>
    -- without an equality on the key only the bounds there are asked
    have noEquality := get?_keySlot_none plain own rfl found
    by_cases isContradicted : contradicted
    · obtain ⟨g, member, sameKey, -, refutes⟩ := contradictedIff.mp isContradicted
      simp only [isContradicted, ↓reduceIte]
      exact .contradicts g member sameKey refutes
    · by_cases isImplied : implied
      · obtain ⟨g, member, sameKey, -, covers⟩ := impliedIff.mp isImplied
        simp only [isContradicted, isImplied, Bool.false_eq_true, ↓reduceIte]
        exact .implied g member sameKey covers
      · simp only [isContradicted, isImplied, Bool.false_eq_true, ↓reduceIte]
        apply Weighed.narrows
        intro g member sameKey
        have notEqual := noEquality g member sameKey
        constructor
        · exact fun refutes => isContradicted (contradictedIff.mpr ⟨g, member, sameKey, notEqual, refutes⟩)
        · exact fun covers => isImplied (impliedIff.mpr ⟨g, member, sameKey, notEqual, covers⟩)

/-- Equalities and exclusions are judged by the equality on their key, and by what excludes their value otherwise. -/
theorem judge_value_weighed (isValue : filter.op = .equal ∨ filter.op = .different) :
    Weighed set filter (set.judge filter) := by
  have excludes := excludes_iff plain own
  cases found : set.get? (Filter.keySlot filter.key .equal) with
  | some equality =>
    have isThere := (get?_keySlot plain own rfl).mp found
    by_cases same : equality.value = filter.value
    · rcases isValue with op | op
      · simp only [judge, op, found, same, ↓reduceIte]
        exact .implied equality isThere.1 isThere.2.1 (by simpa only [Filter.Covers, op, isThere.2.2] using same)
      · simp only [judge, op, found, same, ↓reduceIte]
        exact .contradicts equality isThere.1 isThere.2.1 (by simpa only [Filter.Refutes, op, isThere.2.2] using same)
    · rcases isValue with op | op
      · simp only [judge, op, found, same, ↓reduceIte]
        exact .contradicts equality isThere.1 isThere.2.1 (by simpa only [Filter.Refutes, op, isThere.2.2] using same)
      · simp only [judge, op, found, same, ↓reduceIte]
        exact .implied equality isThere.1 isThere.2.1 (by simpa only [Filter.Covers, op, isThere.2.2] using same)
  | none =>
    have noEquality := get?_keySlot_none plain own rfl found
    by_cases excluded : set.excludes filter
    · obtain ⟨g, member, sameKey, holds⟩ := excludes.mp excluded
      have notEqual := noEquality g member sameKey
      rcases isValue with op | op
      · simp only [judge, op, found, excluded, ↓reduceIte]
        exact .contradicts g member sameKey (by cases old : g.op <;> simp_all [Filter.Refutes])
      · simp only [judge, op, found, excluded, ↓reduceIte]
        exact .implied g member sameKey (by cases old : g.op <;> simp_all [Filter.Covers])
    · have allowed : ∀ g ∈ set.filters, g.key = filter.key → g.op ≠ .equal ∧ ¬ g.Excludes filter :=
        fun g member sameKey => ⟨noEquality g member sameKey, fun holds => excluded (excludes.mpr ⟨g, member, sameKey, holds⟩)⟩
      rcases isValue with op | op <;> simp only [judge, op, found, excluded, Bool.false_eq_true, ↓reduceIte] <;>
        apply Weighed.narrows <;> intro g member sameKey <;> have free := allowed g member sameKey <;>
        cases old : g.op <;> simp_all [Filter.Covers, Filter.Refutes]

theorem judge_pattern_weighed (isPattern : Filter.isPattern filter.op) : Weighed set filter (set.judge filter) := by
  have perValue : Filter.isPerValue filter.op := by
    cases op : filter.op <;> simp_all [Filter.isPattern, Filter.isPerValue]
  have atSlot : filter.slot = Filter.valueSlot filter.key filter.op filter.value := by simp [Filter.slot, perValue]
  have contained := contains_valueSlot plain own perValue
  rw [← atSlot] at contained
  have verdict : set.judge filter = if set.contains filter.slot then .implied else .narrows := by
    cases op : filter.op <;> simp_all [judge, Filter.isPattern]
  rw [verdict]
  by_cases isThere : set.contains filter.slot
  · obtain ⟨g, member, sameKey, sameOp, sameValue⟩ := contained.mp isThere
    rw [if_pos isThere]
    refine .implied g member sameKey ?_
    cases op : filter.op <;> simp_all [Filter.Covers, Filter.isPattern]
  · rw [if_neg isThere]
    apply Weighed.narrows
    intro g member sameKey
    have absent : ¬ (g.op = filter.op ∧ g.value = filter.value) :=
      fun same => isThere (contained.mpr ⟨g, member, sameKey, same⟩)
    cases op : filter.op <;> cases old : g.op <;> simp_all [Filter.Covers, Filter.Refutes, Filter.isPattern]

theorem judge_weighed : Weighed set filter (set.judge filter) := by
  have reads := fun g : Filter => And.intro (g.related_le_iff filter) (And.intro (g.related_lt_iff filter)
    (And.intro (g.related_atLeast_iff filter) (g.related_above_iff filter)))
  cases op : filter.op with
  | equal => exact judge_value_weighed plain own (Or.inl op)
  | different => exact judge_value_weighed plain own (Or.inr op)
  | regex => exact judge_pattern_weighed plain own (by rw [op]; rfl)
  | modulo => exact judge_pattern_weighed plain own (by rw [op]; rfl)
  | greater | atLeast | less | atMost =>
    -- an order comparison asks two kinds of bounds that can refute it, and two that can cover it
    simp only [judge, op]
    apply judgeBound_weighed plain own
    · intro g isEqual
      simp [Filter.Refutes, Filter.Covers, op, isEqual, reads]
    · apply bounds_or_iff plain own ⟨rfl, by decide⟩ ⟨rfl, by decide⟩
      · intro g old; simp [Filter.Refutes, op, old, reads]
      · intro g old; simp [Filter.Refutes, op, old, reads]
      · intro g notEqual notFirst notSecond; cases old : g.op <;> simp_all [Filter.Refutes]
    · apply bounds_or_iff plain own ⟨rfl, by decide⟩ ⟨rfl, by decide⟩
      · intro g old; simp [Filter.Covers, op, old, reads]
      · intro g old; simp [Filter.Covers, op, old, reads]
      · intro g notEqual notFirst notSecond; cases old : g.op <;> simp_all [Filter.Covers]

theorem judge_free (verdict : set.judge filter = .narrows) :
    ∀ other ∈ set.filters, other.key = filter.key → ¬ other.Refutes filter ∧ ¬ other.Covers filter := by
  have weighed := judge_weighed plain own
  rw [verdict] at weighed
  cases weighed with
  | narrows free => exact free

end FilterSet
end MapStyle
