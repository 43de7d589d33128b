import MapStyle.Proofs.Filter.Addition
/-!
Coherent sets: on each key there is an equality alone, or at most one bound from below and one from above, which leave
room between them. Sets whose filters were judged one by one hold no bound twice; they are coherent when they accept
something, and also when their filters came in the order of slots.
-/
namespace MapStyle
namespace Filter

def Numbered (filter : Filter) : Prop := filter.isLower ∨ filter.isUpper → filter.IsNumber

def Definite (filter : Filter) : Prop := isPattern filter.op = false ∧ filter.Numbered

theorem Measures.definite {filter : Filter} (measures : filter.Measures) : filter.Definite :=
  ⟨measures.notPattern, fun _ => measures.isNumber⟩

theorem Compares.definite {values : Set String} (one : OneText values) {filter : Filter} (compares : filter.Compares values) :
    filter.Definite :=
  (compares.measures one).definite

section
variable {existing filter : Filter} (theirs : existing.Definite) (own : filter.Definite)
  (free : ¬ existing.Refutes filter ∧ ¬ existing.Covers filter)
include theirs own free

theorem sheds_of_lower (lower : filter.isLower) (existingLower : existing.isLower) : filter.Sheds existing := by
  have isNumber := theirs.2 (Or.inl existingLower)
  have ownNumber := own.2 (Or.inl lower)
  revert free lower existingLower
  cases new : filter.op <;> cases old : existing.op <;>
    simp [Refutes, Covers, Sheds, isLower, isPattern, Upto, Under, isNumber, ownNumber, new, old]
  all_goals grind

theorem sheds_of_upper (upper : filter.isUpper) (existingUpper : existing.isUpper) : filter.Sheds existing := by
  have isNumber := theirs.2 (Or.inr existingUpper)
  have ownNumber := own.2 (Or.inr upper)
  revert free upper existingUpper
  cases new : filter.op <;> cases old : existing.op <;>
    simp [Refutes, Covers, Sheds, isUpper, isPattern, Upto, Under, isNumber, ownNumber, new, old]
  all_goals grind

end

theorem settled_of_equal {existing filter : Filter} (own : filter.Definite) (isEqual : existing.op = .equal) :
    existing.Refutes filter ∨ existing.Covers filter := by
  have notPattern := own.1
  revert notPattern
  cases new : filter.op <;> simp [Refutes, Covers, isPattern, new, isEqual] <;> grind

/-- Two filters that a set can hold on one key: neither is an equality, and they bound different sides. -/
structure Beside (a b : Filter) : Prop where
  notEqual : a.op ≠ .equal
  otherNotEqual : b.op ≠ .equal
  lower : a.isLower → b.isLower = false
  upper : a.isUpper → b.isUpper = false

theorem Beside.symm {a b : Filter} (beside : a.Beside b) : b.Beside a := by
  constructor
  · exact beside.otherNotEqual
  · exact beside.notEqual
  · exact fun bLower => Bool.eq_false_iff.mpr fun aLower => by simp [beside.lower aLower] at bLower
  · exact fun bUpper => Bool.eq_false_iff.mpr fun aUpper => by simp [beside.upper aUpper] at bUpper

/-- A new filter stands beside what neither refutes nor covers it and is not shed for it. -/
theorem beside_of_free {existing filter : Filter} (theirs : existing.Definite) (own : filter.Definite)
    (free : ¬ existing.Refutes filter ∧ ¬ existing.Covers filter) (kept : ¬ filter.Sheds existing) :
    filter.Beside existing := by
  constructor
  · intro isEqual
    apply kept
    simp [Sheds, isEqual]
  · intro isEqual
    rcases settled_of_equal own isEqual with refutes | covers
    · exact free.1 refutes
    · exact free.2 covers
  · exact fun lower => Bool.eq_false_iff.mpr fun existingLower => kept (sheds_of_lower theirs own free lower existingLower)
  · exact fun upper => Bool.eq_false_iff.mpr fun existingUpper => kept (sheds_of_upper theirs own free upper existingUpper)

end Filter

namespace FilterSet

/-- No bound twice, and nothing beside an equality. -/
structure Single (set : FilterSet) : Prop where
  alone : ∀ a ∈ set.filters, a.op = .equal → ∀ b ∈ set.filters, b.key = a.key → b = a
  lower : ∀ a ∈ set.filters, a.isLower → ∀ b ∈ set.filters, b.isLower → b.key = a.key → b = a
  upper : ∀ a ∈ set.filters, a.isUpper → ∀ b ∈ set.filters, b.isUpper → b.key = a.key → b = a

/-- The bounds of a key leave room between them. -/
structure Coherent (set : FilterSet) : Prop extends Single set where
  room : ∀ a ∈ set.filters, a.isLower → ∀ b ∈ set.filters, b.isUpper → b.key = a.key →
    a.bound < b.bound ∨ (a.bound = b.bound ∧ a.op = .atLeast ∧ b.op = .atMost)

theorem single_empty : Single empty := by constructor <;> simp [empty]

theorem coherent_empty : Coherent empty := ⟨single_empty, by simp [empty]⟩

def Ranged (set : FilterSet) : Prop :=
  ∀ a ∈ set.filters, a.isLower → ∀ b ∈ set.filters, b.isUpper → b.key = a.key → a.bound ≤ b.bound

theorem ranged_empty : Ranged empty := by simp [Ranged, empty]

def Sole (set : FilterSet) : Prop :=
  ∀ a ∈ set.filters, ∀ b ∈ set.filters, a.key = b.key → a.Definite → b.Definite → a = b ∨ a.Beside b

theorem sole_empty : Sole empty := by simp [Sole, empty]

theorem Sole.single {set : FilterSet} (sole : Sole set) (measures : set.Measures) : Single set := by
  have pair : ∀ a ∈ set.filters, ∀ b ∈ set.filters, b.key = a.key → b = a ∨ a.Beside b := by
    intro a aMember b bMember sameKey
    exact (sole a aMember b bMember sameKey.symm (measures a aMember).definite (measures b bMember).definite).imp_left Eq.symm
  constructor
  · intro a aMember isEqual b bMember sameKey
    exact (pair a aMember b bMember sameKey).resolve_right fun beside => beside.notEqual isEqual
  · intro a aMember aLower b bMember bLower sameKey
    exact (pair a aMember b bMember sameKey).resolve_right fun beside => by simp [beside.lower aLower] at bLower
  · intro a aMember aUpper b bMember bUpper sameKey
    exact (pair a aMember b bMember sameKey).resolve_right fun beside => by simp [beside.upper aUpper] at bUpper

theorem Single.beside {set : FilterSet} (single : Single set) {a b : Filter} (aMember : a ∈ set.filters)
    (bMember : b ∈ set.filters) (differ : a ≠ b) (sameKey : a.key = b.key) : a.Beside b := by
  constructor
  · exact fun isEqual => differ (single.alone a aMember isEqual b bMember sameKey.symm).symm
  · exact fun isEqual => differ (single.alone b bMember isEqual a aMember sameKey)
  · exact fun aLower => Bool.eq_false_iff.mpr fun bLower =>
      differ (single.lower b bMember bLower a aMember aLower sameKey)
  · exact fun aUpper => Bool.eq_false_iff.mpr fun bUpper =>
      differ (single.upper b bMember bUpper a aMember aUpper sameKey)

theorem Single.sole {set : FilterSet} (single : Single set) : Sole set := by
  intro a aMember b bMember sameKey _ _
  by_cases same : a = b
  · exact Or.inl same
  · exact Or.inr (single.beside aMember bMember same sameKey)

section
variable {set : FilterSet} {filter : Filter}

@[simp] theorem entry_definite : (set.entry filter).Definite ↔ filter.Definite := by
  simp only [Filter.Definite, Filter.Numbered, entry_isPattern, entry_isLower, entry_isUpper, entry_isNumber]

theorem beside_entry {other : Filter} (beside : filter.Beside other) : (set.entry filter).Beside other := by
  constructor
  · exact fun isEqual => beside.notEqual (entry_equal_iff.mp isEqual)
  · exact beside.otherNotEqual
  · exact fun isLower => beside.lower (entry_isLower.symm.trans isLower)
  · exact fun isUpper => beside.upper (entry_isUpper.symm.trans isUpper)

variable (plain : set.PlainKeys) (own : filter.PlainKey) (sole : Sole set)
include plain own sole

theorem Sole.add_beside (besides : ∀ other ∈ set.filters, other.key = filter.key → filter.Definite → other.Definite →
    ¬ filter.Sheds other → filter.Beside other) : Sole (set.add filter) := by
  have kept : ∀ b ∈ set.filters, (b.key = filter.key → ¬ filter.Sheds b) → (set.entry filter).key = b.key →
      (set.entry filter).Definite → b.Definite → (set.entry filter).Beside b := by
    intro b member notShed sameKey entryDefinite definite
    have onFilter : b.key = filter.key := sameKey.symm.trans entry_key
    exact beside_entry (besides b member onFilter (entry_definite.mp entryDefinite) definite (notShed onFilter))
  -- of two filters in the new set both are the entry, one of them is, or both were there before
  intro a aMember b bMember sameKey aDefinite bDefinite
  rcases (mem_add plain own).mp aMember with rfl | ⟨aInside, aKept, -⟩ <;>
    rcases (mem_add plain own).mp bMember with rfl | ⟨bInside, bKept, -⟩
  · exact Or.inl rfl
  · exact Or.inr (kept b bInside bKept sameKey aDefinite bDefinite)
  · exact Or.inr (kept a aInside aKept sameKey.symm bDefinite aDefinite).symm
  · exact sole a aInside b bInside sameKey aDefinite bDefinite

theorem Sole.add (verdict : set.judge filter = .narrows) : Sole (set.add filter) := by
  apply sole.add_beside plain own
  intro other member sameKey definite theirs notShed
  exact Filter.beside_of_free theirs definite (judge_free plain own verdict other member sameKey) notShed

end

theorem Single.add {set : FilterSet} {filter : Filter} (single : Single set) (measures : set.Measures)
    (own : filter.Measures) (verdict : set.judge filter = .narrows) : Single (set.add filter) :=
  (single.sole.add measures.plainKeys own.plainKey verdict).single (add_measures measures own)

theorem Ranged.add {set : FilterSet} {filter : Filter} (ranged : Ranged set) (measures : set.Measures)
    (own : filter.Measures) (verdict : set.judge filter = .narrows) : Ranged (set.add filter) := by
  have plain := measures.plainKeys
  have free := judge_free plain own.plainKey verdict
  have ownNumber := own.isNumber
  intro a aMember aLower b bMember bUpper sameKey
  rcases (mem_add plain own.plainKey).mp aMember with rfl | ⟨aInside, -, -⟩ <;>
    rcases (mem_add plain own.plainKey).mp bMember with rfl | ⟨bInside, -, -⟩
  · exact le_rfl
  · rw [entry_isLower] at aLower
    rw [entry_key] at sameKey
    rw [entry_bound]
    have notRefuted := (free b bInside sameKey).1
    have isNumber := (measures b bInside).isNumber
    revert aLower bUpper notRefuted
    cases op : filter.op <;> cases bOp : b.op <;>
      simp [Filter.isLower, Filter.isUpper, Filter.Refutes, Filter.Upto, Filter.Under, isNumber, ownNumber, op, bOp]
    all_goals exact le_of_lt
  · rw [entry_isUpper] at bUpper
    rw [entry_key] at sameKey
    rw [entry_bound]
    have notRefuted := (free a aInside sameKey.symm).1
    have isNumber := (measures a aInside).isNumber
    revert aLower bUpper notRefuted
    cases op : filter.op <;> cases aOp : a.op <;>
      simp [Filter.isLower, Filter.isUpper, Filter.Refutes, Filter.Upto, Filter.Under, isNumber, ownNumber, op, aOp]
    all_goals exact le_of_lt
  · exact ranged a aInside aLower b bInside bUpper sameKey

variable {values : Set String} (one : OneText values) {set : FilterSet}
include one

theorem Single.coherent (single : Single set) (compares : set.Compares values) {feature : Feature}
    (accepted : set.accepts feature) : Coherent set where
  toSingle := single
  room := by
    intro a aMember aLower b bMember bUpper onKey
    have atA := ((compares a aMember).accepts_iff one feature).mp (accepted a aMember)
    have atB := ((compares b bMember).accepts_iff one feature).mp (accepted b bMember)
    rw [onKey] at atB
    revert aLower bUpper atA atB
    cases aOp : a.op <;> cases bOp : b.op <;> simp [Filter.isLower, Filter.isUpper, aOp, bOp, Comparison.holds] <;> grind

/-- A coherent set stays coherent when a bound that meets one from the other side is not sharpened. -/
theorem Coherent.add (coherent : Coherent set) (compares : set.Compares values) {filter : Filter}
    (own : filter.Compares values) (verdict : set.judge filter = .narrows)
    (blunt : ∀ b ∈ set.filters, b.key = filter.key → (filter.isLower ∧ b.isUpper) ∨ (filter.isUpper ∧ b.isLower) →
      b.bound = filter.bound → ∀ c ∈ set.filters, c.key = filter.key → c.op = .different → c.bound ≠ filter.bound) :
    Coherent (set.add filter) where
  toSingle := coherent.toSingle.add (compares.measures one) (own.measures one) verdict
  room := by
    have free := judge_narrows one compares own verdict
    -- the entry for a bound that meets another one is the bound itself
    have kept : ∀ b ∈ set.filters, b.key = filter.key → (filter.isLower ∧ b.isUpper) ∨ (filter.isUpper ∧ b.isLower) →
        b.bound = filter.bound → set.entry filter = filter := by
      intro b member sameKey across meets
      rcases entry_cases_bound one compares own with ⟨same, -⟩ | ⟨-, -, -, c, inside, onKey, isExclusion, sameBound⟩
      · exact same
      · exact absurd sameBound (blunt b member sameKey across meets c inside onKey isExclusion)
    intro a aMember aLower b bMember bUpper onKey
    rcases (mem_add_iff one compares own).mp aMember with rfl | ⟨aInside, -, -⟩ <;>
      rcases (mem_add_iff one compares own).mp bMember with rfl | ⟨bInside, -, -⟩
    · revert aLower bUpper
      cases op : (set.entry filter).op <;> simp [Filter.isUpper, Filter.isLower, op]
    · rw [entry_key] at onKey
      rw [entry_isLower] at aLower
      rw [entry_bound]
      have apart := (free b bInside onKey).1
      have same := kept b bInside onKey (Or.inl ⟨aLower, bUpper⟩)
      revert apart aLower bUpper same
      cases op : filter.op <;> cases bOp : b.op <;> simp [Filter.Opposes, Filter.isLower, Filter.isUpper, op, bOp]
      all_goals grind
    · rw [entry_key] at onKey
      rw [entry_isUpper] at bUpper
      rw [entry_bound]
      have apart := (free a aInside onKey.symm).1
      have same := kept a aInside onKey.symm (Or.inr ⟨bUpper, aLower⟩)
      revert apart aLower bUpper same
      cases op : filter.op <;> cases aOp : a.op <;> simp [Filter.Opposes, Filter.isLower, Filter.isUpper, op, aOp]
      all_goals grind
    · exact coherent.room a aInside aLower b bInside bUpper onKey

end FilterSet
end MapStyle
