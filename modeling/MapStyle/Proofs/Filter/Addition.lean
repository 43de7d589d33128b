import MapStyle.Proofs.Filter.Shedding
import MapStyle.Proofs.Filter.Verdict
/-!
Adding a filter. What a set drops for the sake of a new filter is implied by it, provided that each of its filters
admits the new one; so the set with the filter accepts what both accept.
-/
namespace MapStyle
namespace Filter

/-- Whether a set that adds `filter` may drop what the operators and values of the two make it drop. -/
def Admits (existing filter : Filter) : Prop :=
  match filter.op with
  | .equal => existing.op.holds filter.bound existing.bound
  | .greater => existing.op ≠ .equal ∧ (existing.isLower → existing.bound ≤ filter.bound) ∧
      (existing.isUpper → filter.bound < existing.bound)
  | .atLeast => existing.op ≠ .equal ∧ (existing.isLower → existing.bound ≤ filter.bound) ∧
      (existing.isUpper → filter.bound ≤ existing.bound)
  | .less => existing.op ≠ .equal ∧ (existing.isUpper → filter.bound ≤ existing.bound) ∧
      (existing.isLower → existing.bound < filter.bound)
  | .atMost => existing.op ≠ .equal ∧ (existing.isUpper → filter.bound ≤ existing.bound) ∧
      (existing.isLower → existing.bound ≤ filter.bound)
  | _ => True

theorem admits_of_free {existing filter : Filter} (notPattern : isPattern existing.op = false)
    (free : ¬ existing.Opposes filter ∧ ¬ existing.Entails filter) : existing.Admits filter := by
  revert free notPattern
  cases new : filter.op <;> cases old : existing.op <;>
    simp [Opposes, Entails, Admits, new, old, isLower, isUpper, isPattern, Comparison.holds] <;> grind

def Drops (filter existing : Filter) : Prop :=
  match filter.op with
  | .equal => True
  | .greater => existing.bound ≤ filter.bound
  | .less => filter.bound ≤ existing.bound
  | .atLeast => existing.bound < filter.bound ∨ (existing.op = .different ∧ existing.bound = filter.bound)
  | .atMost => filter.bound < existing.bound ∨ (existing.op = .different ∧ existing.bound = filter.bound)
  | _ => False

/-- What is dropped holds wherever the new filter does, an exclusion of the same value where that value is not taken. -/
theorem Admits.holds_of_drops {existing filter : Filter} (admits : existing.Admits filter) (drops : filter.Drops existing)
    (notPattern : isPattern existing.op = false) {x : EReal} (holds : filter.op.holds x filter.bound)
    (apart : filter.op = .atLeast ∨ filter.op = .atMost → existing.op = .different → existing.bound = filter.bound →
      x ≠ filter.bound) :
    existing.op.holds x existing.bound := by
  revert admits drops holds apart notPattern
  cases new : filter.op <;> cases old : existing.op <;>
    simp only [Admits, Drops, new, old, isLower, isUpper, isPattern, Comparison.holds] <;> grind

theorem Admits.holds_of_sameOp {existing filter : Filter} (admits : existing.Admits filter) {op : Comparison}
    (sameOp : existing.op = op) (sharpened : filter.op = op ∨ (filter.op = .atLeast ∧ op = .greater) ∨
      (filter.op = .atMost ∧ op = .less)) (sameBound : op = .different → existing.bound = filter.bound) {x : EReal}
    (holds : op.holds x filter.bound) : existing.op.holds x existing.bound := by
  revert admits sharpened holds sameBound
  subst sameOp
  cases new : filter.op <;> cases old : existing.op <;>
    simp only [Admits, new, old, isLower, isUpper, Comparison.holds] <;> grind

theorem Sheds.drops {filter existing : Filter} (sheds : filter.Sheds existing) : filter.Drops existing := by
  have sameBound : existing.value = filter.value → existing.bound = filter.bound := bound_congr
  cases op : filter.op <;> simp only [Sheds, op] at sheds <;> simp only [Drops, op]
  · exact sheds.2.2.2
  · exact sheds.imp (fun below => below.2.2.2) (fun same => ⟨same.1, sameBound same.2⟩)
  · exact sheds.2.2.2
  · exact sheds.imp (fun below => below.2.2.2) (fun same => ⟨same.1, sameBound same.2⟩)

theorem Sheds.sameValue {filter existing : Filter} (sheds : filter.Sheds existing)
    (inclusive : filter.op = .atLeast ∨ filter.op = .atMost) (sameBound : existing.bound = filter.bound) :
    existing.value = filter.value := by
  revert sheds
  rcases inclusive with op | op <;> simp [Sheds, Under, op, sameBound]

theorem Compares.sheds_iff {values : Set String} (one : OneText values) {filter existing : Filter}
    (own : filter.Compares values) (theirs : existing.Compares values) : filter.Sheds existing ↔ filter.Drops existing := by
  have notPattern := theirs.notPattern
  unfold Sheds Drops
  cases op : filter.op <;> simp [notPattern, theirs.upto_iff one own, own.upto_iff one theirs, theirs.under_iff one own,
    own.under_iff one theirs, theirs.value_eq_iff one own]

end Filter

namespace FilterSet

def Measures (set : FilterSet) : Prop := ∀ filter ∈ set.filters, filter.Measures

theorem Measures.plainKeys {set : FilterSet} (measures : set.Measures) : set.PlainKeys :=
  fun filter member => (measures filter member).plainKey

section
variable {set : FilterSet} (measures : set.Measures) {filter : Filter} (own : filter.Measures)
include own

theorem entry_measures : (set.entry filter).Measures where
  notPattern := entry_isPattern.trans own.notPattern
  plainKey := entry_plainKey own.plainKey
  isNumber := entry_isNumber.mpr own.isNumber

include measures

theorem add_measures : (set.add filter).Measures := by
  intro other member
  rcases (mem_add measures.plainKeys own.plainKey).mp member with same | ⟨inside, -⟩
  · exact same ▸ entry_measures own
  · exact measures other inside

section
variable {x : EReal} (atEntry : (set.entry filter).op.holds x filter.bound)
include atEntry

theorem holds_of_entry : filter.op.holds x filter.bound := by
  rcases entry_cases measures.plainKeys own.plainKey with ⟨same, -⟩ | ⟨op, same, ⟨atFilter, rfl⟩ | ⟨atFilter, rfl⟩, -⟩
  · rwa [same] at atEntry
  · rw [same] at atEntry; rw [atFilter]; exact le_of_lt atEntry
  · rw [same] at atEntry; rw [atFilter]; exact le_of_lt atEntry

theorem ne_of_entry (inclusive : filter.op = .atLeast ∨ filter.op = .atMost) {excluded : Filter}
    (member : excluded ∈ set.filters) (sameKey : excluded.key = filter.key) (isExclusion : excluded.op = .different)
    (sameValue : excluded.value = filter.value) : x ≠ filter.bound := by
  rcases entry_cases measures.plainKeys own.plainKey with ⟨-, free⟩ | ⟨op, same, ⟨-, rfl⟩ | ⟨-, rfl⟩, -⟩
  · exact absurd sameValue (free inclusive excluded member sameKey isExclusion)
  · rw [same] at atEntry; exact ne_of_gt atEntry
  · rw [same] at atEntry; exact ne_of_lt atEntry

theorem holds_of_replaced {other : Filter} (admits : other.Admits filter) (theirs : other.Measures)
    (replaced : other.slot = (set.entry filter).slot) : other.op.holds x other.bound := by
  obtain ⟨-, sameOp, sameTail⟩ := Filter.slot_injective theirs.plainKey (entry_measures own).plainKey replaced
  refine admits.holds_of_sameOp sameOp ?_ ?_ atEntry
  · rcases entry_cases measures.plainKeys own.plainKey with ⟨same, -⟩ | ⟨op, same, strict, -⟩
    · exact Or.inl (by rw [same])
    · rw [same]; exact Or.inr strict
  · intro isExclusion
    have sameValue : other.value = (set.entry filter).value := by
      simpa [Filter.slotTail, sameOp, isExclusion, Filter.isPerValue] using sameTail
    exact Filter.bound_congr (sameValue.trans entry_value)

end

theorem entry_accepts {feature : Feature} (accepted : set.accepts feature) (onFilter : filter.accepts feature) :
    (set.entry filter).accepts feature := by
  rw [(entry_measures own).isNumber.accepts_iff, entry_key, entry_bound]
  have holds := (own.isNumber.accepts_iff feature).mp onFilter
  rcases entry_cases measures.plainKeys own.plainKey with
    ⟨same, -⟩ | ⟨op, same, strict, excluded, member, sameKey, isExclusion, sameValue⟩
  · rwa [same]
  · have apart := ((measures excluded member).isNumber.accepts_iff feature).mp (accepted excluded member)
    rw [sameKey, isExclusion, Filter.bound_congr sameValue] at apart
    rw [same]
    rcases strict with ⟨atFilter, rfl⟩ | ⟨atFilter, rfl⟩
    · rw [atFilter] at holds; exact lt_of_le_of_ne holds (Ne.symm apart)
    · rw [atFilter] at holds; exact lt_of_le_of_ne holds apart

/-- A set with one more filter, which its filters admit, accepts what both accept. -/
theorem add_accepts_of_measures (admitted : ∀ other ∈ set.filters, other.key = filter.key → other.Admits filter)
    (feature : Feature) : (set.add filter).accepts feature ↔ set.accepts feature ∧ filter.accepts feature := by
  have plain := measures.plainKeys
  have ownEntry : (set.entry filter).Measures := entry_measures own
  constructor
  · intro accepted
    have atEntry := (ownEntry.isNumber.accepts_iff feature).mp
      (accepted _ ((mem_add plain own.plainKey).mpr (Or.inl rfl)))
    rw [entry_key, entry_bound] at atEntry
    have holds := holds_of_entry measures own atEntry
    refine ⟨fun other member => ?_, (own.isNumber.accepts_iff feature).mpr holds⟩
    have theirs := measures other member
    by_cases shed : other.key = filter.key ∧ filter.Sheds other
    · obtain ⟨sameKey, sheds⟩ := shed
      rw [theirs.isNumber.accepts_iff, sameKey]
      refine (admitted other member sameKey).holds_of_drops sheds.drops theirs.notPattern holds ?_
      intro inclusive isExclusion sameBound
      exact ne_of_entry measures own atEntry inclusive member sameKey isExclusion (sheds.sameValue inclusive sameBound)
    · by_cases replaced : other.slot = (set.entry filter).slot
      · have sameKey := (Filter.slot_injective theirs.plainKey ownEntry.plainKey replaced).1.trans entry_key
        rw [theirs.isNumber.accepts_iff, sameKey]
        exact holds_of_replaced measures own atEntry (admitted other member sameKey) theirs replaced
      · exact accepted other ((mem_add plain own.plainKey).mpr
          (Or.inr ⟨member, fun sameKey sheds => shed ⟨sameKey, sheds⟩, replaced⟩))
  · rintro ⟨accepted, onFilter⟩ other member
    rcases (mem_add plain own.plainKey).mp member with rfl | ⟨inside, -⟩
    · exact entry_accepts measures own accepted onFilter
    · exact accepted other inside

end

variable {values : Set String} (one : OneText values) {set : FilterSet} (compares : set.Compares values)
include compares

include one in
theorem Compares.measures : set.Measures := fun filter member => (compares filter member).measures one

omit compares in
theorem entry_compares {filter : Filter} (own : filter.Compares values) : (set.entry filter).Compares values where
  notPattern := entry_isPattern.trans own.notPattern
  plainKey := entry_plainKey own.plainKey
  value := by rw [entry_value]; exact own.value

theorem add_compares {filter : Filter} (own : filter.Compares values) : (set.add filter).Compares values := by
  intro other member
  rcases (mem_add compares.plainKeys own.plainKey).mp member with same | ⟨inside, -⟩
  · exact same ▸ entry_compares own
  · exact compares other inside

include one

/-- Where each number has one text, what a set drops is told by places on the line. -/
theorem mem_add_iff {filter : Filter} (own : filter.Compares values) {other : Filter} :
    other ∈ (set.add filter).filters ↔ other = set.entry filter ∨ (other ∈ set.filters ∧
      (other.key = filter.key → ¬ filter.Drops other) ∧ other.slot ≠ (set.entry filter).slot) := by
  rw [mem_add compares.plainKeys own.plainKey]
  refine or_congr_right (and_congr_right fun member => ?_)
  rw [own.sheds_iff one (compares other member)]

theorem entry_cases_bound {filter : Filter} (own : filter.Compares values) :
    (set.entry filter = filter ∧ (filter.op = .atLeast ∨ filter.op = .atMost → ∀ other ∈ set.filters,
      other.key = filter.key → other.op = .different → other.bound ≠ filter.bound)) ∨
    (∃ op, set.entry filter = { filter with op } ∧ ((filter.op = .atLeast ∧ op = .greater) ∨
      (filter.op = .atMost ∧ op = .less)) ∧ ∃ other ∈ set.filters, other.key = filter.key ∧ other.op = .different ∧
      other.bound = filter.bound) := by
  rcases entry_cases compares.plainKeys own.plainKey with ⟨same, free⟩ | ⟨op, same, strict, other, member, sameKey, isExclusion, sameValue⟩
  · refine Or.inl ⟨same, fun inclusive other member sameKey isExclusion sameBound => ?_⟩
    exact free inclusive other member sameKey isExclusion (((compares other member).value_eq_iff one own).mpr sameBound)
  · exact Or.inr ⟨op, same, strict, other, member, sameKey, isExclusion, ((compares other member).value_eq_iff one own).mp sameValue⟩

theorem add_accepts {filter : Filter} (own : filter.Compares values)
    (admitted : ∀ other ∈ set.filters, other.key = filter.key → other.Admits filter) (feature : Feature) :
    (set.add filter).accepts feature ↔ set.accepts feature ∧ filter.accepts feature :=
  add_accepts_of_measures (compares.measures one) (own.measures one) admitted feature

end FilterSet
end MapStyle
