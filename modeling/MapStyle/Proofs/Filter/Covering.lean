import MapStyle.Proofs.Filter.Merging
/-!
Covering. What a set covers it still covers after it has added a filter that its own filters yield to: the entry covers
whatever it sheds or replaces, and covering is transitive. Values may be any texts as long as bounds are numbers.
-/
namespace MapStyle
namespace Filter

theorem Covers.congr {a b other : Filter} (sameOp : a.op = b.op) (sameValue : a.value = b.value)
    (covers : a.Covers other) : b.Covers other := by
  have sameNumeric : a.numeric = b.numeric := by rw [numeric, sameValue, numeric]
  revert covers
  simp only [Covers, Excludes, Upto, Under, IsNumber, bound, sameOp, sameValue, sameNumeric]
  exact id

theorem Covers.trans {a b c : Filter} (first : a.Covers b) (second : b.Covers c) : a.Covers c := by
  have startBound := @bound_congr a b
  have startNumber := @isNumber_congr a b
  have endBound := @bound_congr b c
  have endNumber := @isNumber_congr b c
  have outerBound := @bound_congr a c
  have outerNumber := @isNumber_congr a c
  revert first second
  cases target : c.op <;> cases middle : b.op <;> simp only [Covers, Excludes, target, middle, Upto, Under,
    false_imp_iff, imp_true_iff] <;> cases a.op <;> simp only [false_imp_iff] <;> grind

theorem covers_self {filter : Filter} (numbered : filter.Numbered) : filter.Covers filter := by
  revert numbered
  cases op : filter.op <;> simp [Numbered, isLower, isUpper, Covers, Excludes, Upto, op]

theorem Covers.isPattern {existing filter : Filter} (covers : existing.Covers filter) :
    Filter.isPattern existing.op = Filter.isPattern filter.op := by
  revert covers
  cases new : filter.op <;> cases old : existing.op <;> simp [Covers, Excludes, Filter.isPattern, new, old]

/-- Whether a set that adds `filter` may shed what the operators and values of the two make it shed. -/
def Yields (existing filter : Filter) : Prop :=
  match filter.op with
  | .equal => ¬ existing.Refutes filter
  | .greater => existing.op ≠ .equal ∧ (existing.isLower → existing.Upto filter) ∧
      (existing.isUpper → filter.Under existing)
  | .atLeast => existing.op ≠ .equal ∧ (existing.isLower → existing.Upto filter) ∧
      (existing.isUpper → filter.Upto existing)
  | .less => existing.op ≠ .equal ∧ (existing.isUpper → filter.Upto existing) ∧
      (existing.isLower → existing.Under filter)
  | .atMost => existing.op ≠ .equal ∧ (existing.isUpper → filter.Upto existing) ∧
      (existing.isLower → existing.Upto filter)
  | _ => True

section
variable {existing filter : Filter} (theirs : existing.Numbered) (own : filter.Numbered)
include theirs own

theorem yields_of_free (free : ¬ existing.Refutes filter ∧ ¬ existing.Covers filter) : existing.Yields filter := by
  revert theirs own free
  cases new : filter.op <;> cases old : existing.op <;>
    simp [Numbered, Refutes, Covers, Yields, Upto, Under, isLower, isUpper, new, old] <;> grind

end

def Precedes (a b : Filter) : Prop := a.Yields b ∧ (b.op = .equal → isPattern a.op)

theorem covers_of_equal {existing filter : Filter} (notPattern : isPattern existing.op = false)
    (isEqual : filter.op = .equal) (agrees : ¬ existing.Refutes filter) : filter.Covers existing := by
  revert agrees notPattern
  cases old : existing.op <;> simp [Refutes, Covers, Excludes, isPattern, isEqual, old, eq_comm]

theorem Sheds.covered_strict {existing filter added : Filter} (own : filter.Numbered) (sheds : filter.Sheds existing)
    (yields : existing.Yields filter) (notPattern : isPattern existing.op = false) (sameValue : added.value = filter.value)
    (op : (filter.op = .atLeast ∧ added.op = .greater) ∨ (filter.op = .atMost ∧ added.op = .less)) :
    added.Covers existing := by
  have isNumber := own (op.imp (fun isAtLeast => by rw [isLower, isAtLeast.1]) (fun isAtMost => by rw [isUpper, isAtMost.1]))
  have sameBound := bound_congr sameValue
  have sameNumber := isNumber_congr sameValue
  have atBound := @bound_congr existing filter
  have atNumber := @isNumber_congr existing filter
  revert sheds yields notPattern
  rcases op with ⟨inclusive, strict⟩ | ⟨inclusive, strict⟩ <;> cases old : existing.op <;>
    simp [Sheds, Yields, Covers, Excludes, Upto, Under, isLower, isUpper, isPattern, inclusive, strict, old] <;> grind

/-- What gives way is covered by what takes its place: the filter itself, unless it excludes its own value, or the
strict bound. -/
theorem Sheds.covered {existing filter added : Filter} (own : filter.Numbered) (sheds : filter.Sheds existing)
    (yields : existing.Yields filter) (notPattern : isPattern existing.op = false) (sameValue : added.value = filter.value)
    (op : (added.op = filter.op ∧ (filter.op = .atLeast ∨ filter.op = .atMost → existing.op = .different →
        existing.value ≠ filter.value)) ∨
      (filter.op = .atLeast ∧ added.op = .greater) ∨ (filter.op = .atMost ∧ added.op = .less)) :
    added.Covers existing := by
  rcases op with ⟨same, apart⟩ | strict
  · apply Covers.congr same.symm sameValue.symm
    by_cases isEqual : filter.op = .equal
    · exact covers_of_equal notPattern isEqual (by simpa only [Yields, isEqual] using yields)
    · revert sheds yields apart notPattern
      cases new : filter.op <;> cases old : existing.op <;>
        simp [Sheds, Yields, Covers, Excludes, Upto, Under, isLower, isUpper, isPattern, new, old] at isEqual ⊢ <;> grind
  · exact sheds.covered_strict own yields notPattern sameValue strict

theorem kind_cases (filter : Filter) :
    isPerValue filter.op ∨ filter.op = .equal ∨ filter.isLower ∨ filter.isUpper := by
  cases op : filter.op <;> simp [isPerValue, isLower, isUpper, op]

theorem Sheds.notPattern {existing filter : Filter} (sheds : filter.Sheds existing) (notEqual : filter.op ≠ .equal) :
    Filter.isPattern existing.op = false := by
  revert sheds
  cases new : filter.op <;> cases old : existing.op <;> simp [Sheds, Filter.isPattern, new, old] at notEqual ⊢

theorem Yields.covered {existing filter added : Filter} (yields : existing.Yields filter) (sameOp : existing.op = added.op)
    (sameValue : added.value = filter.value) (lower : added.isLower = filter.isLower)
    (upper : added.isUpper = filter.isUpper) (isBound : existing.isLower ∨ existing.isUpper) : added.Covers existing := by
  have sameBound := bound_congr sameValue
  have sameNumber := isNumber_congr sameValue
  revert yields lower upper isBound
  cases new : filter.op <;> cases old : existing.op <;>
    simp [Yields, Covers, isLower, isUpper, Upto, ← sameOp, sameBound, sameNumber, new, old]

end Filter

namespace FilterSet

def Covers (set : FilterSet) (other : Filter) : Prop :=
  ∃ existing ∈ set.filters, existing.key = other.key ∧ existing.Covers other

section
variable {set : FilterSet} {filter : Filter}

theorem entry_covers (own : filter.Numbered) : (set.entry filter).Covers filter := by
  have self := Filter.covers_self own
  rcases entry_eq set filter with same | ⟨op, same⟩ | ⟨op, same⟩
  · rwa [same]
  · rw [same]
    simp only [Filter.Covers, op] at self ⊢
    exact self
  · rw [same]
    simp only [Filter.Covers, op] at self ⊢
    exact self

@[simp] theorem entry_numbered : (set.entry filter).Numbered ↔ filter.Numbered := by
  simp only [Filter.Numbered, entry_isLower, entry_isUpper, entry_isNumber]

theorem entry_precedes {later : Filter} (precedes : filter.Precedes later) : (set.entry filter).Precedes later := by
  by_cases isEqual : later.op = .equal
  · have isPattern := precedes.2 isEqual
    have same : set.entry filter = filter := by
      cases op : filter.op <;> simp [Filter.isPattern, op] at isPattern <;> simp [entry, op]
    rwa [same]
  · have yields := precedes.1
    refine ⟨?_, fun held => absurd held isEqual⟩
    revert yields
    cases op : later.op <;> simp [Filter.Yields, Filter.Upto, Filter.Under, entry_equal_iff, op] at isEqual ⊢

variable (plain : set.PlainKeys) (own : filter.PlainKey) {existing : Filter} (member : existing ∈ set.filters)
  (sameKey : existing.key = filter.key) (yields : existing.Yields filter) (numbered : filter.Numbered)
include plain own member sameKey yields numbered

theorem entry_covers_shed (notPattern : Filter.isPattern existing.op = false) (sheds : filter.Sheds existing) :
    (set.entry filter).Covers existing := by
  apply sheds.covered numbered yields notPattern entry_value
  rcases entry_cases plain own with ⟨same, free⟩ | ⟨op, same, ⟨isAtLeast, rfl⟩ | ⟨isAtMost, rfl⟩, -⟩
  · rw [same]
    exact Or.inl ⟨rfl, fun inclusive isExclusion => free inclusive existing member sameKey isExclusion⟩
  · exact Or.inr (Or.inl ⟨isAtLeast, by rw [same]⟩)
  · exact Or.inr (Or.inr ⟨isAtMost, by rw [same]⟩)

theorem entry_covers_replaced (theirs : existing.Numbered) (sameSlot : existing.slot = (set.entry filter).slot) :
    (set.entry filter).Covers existing := by
  obtain ⟨-, sameOp, sameTail⟩ := Filter.slot_injective (plain existing member) (entry_plainKey own) sameSlot
  rcases existing.kind_cases with perValue | isEqual | isBound
  · have sameValue : existing.value = (set.entry filter).value := by
      simpa only [Filter.slotTail, ← sameOp, perValue, if_true] using sameTail
    exact (Filter.covers_self theirs).congr sameOp sameValue
  · have ownEqual : filter.op = .equal := entry_equal_iff.mp (sameOp.symm.trans isEqual)
    exact entry_covers_shed plain own member sameKey yields numbered (by rw [isEqual]; rfl)
      (by simp [Filter.Sheds, ownEqual])
  · exact yields.covered sameOp entry_value entry_isLower entry_isUpper isBound

end

/-- On a key, the set can add the filters one after the other. -/
structure Takes (set : FilterSet) (filters : List Filter) (key : String) : Prop where
  numbered : ∀ filter ∈ filters, filter.key = key → filter.Numbered
  existing : ∀ other ∈ set.filters, other.key = key → other.Numbered ∧
    ∀ filter ∈ filters, filter.key = key → other.Yields filter
  apart : filters.Pairwise fun a b => a.key = key → b.key = key → a.Precedes b

section
variable {set : FilterSet} (plain : set.PlainKeys) {other : Filter}
include plain

theorem Covers.add {filter : Filter} (own : filter.PlainKey) {rest : List Filter}
    (takes : set.Takes (filter :: rest) other.key)
    (kept : filter.key = other.key → filter.op = .equal → Filter.isPattern other.op = false)
    (covered : set.Covers other) : (set.add filter).Covers other := by
  obtain ⟨existing, member, onKey, covers⟩ := covered
  by_cases sameKey : existing.key = filter.key
  · have ownKey : filter.key = other.key := sameKey.symm.trans onKey
    have numbered := takes.numbered filter List.mem_cons_self ownKey
    obtain ⟨theirs, yields⟩ := takes.existing existing member onKey
    have yields := yields filter List.mem_cons_self ownKey
    have isEntry : set.entry filter ∈ (set.add filter).filters := (mem_add plain own).mpr (Or.inl rfl)
    by_cases sheds : filter.Sheds existing
    · have notPattern : Filter.isPattern existing.op = false := by
        by_cases isEqual : filter.op = .equal
        · exact covers.isPattern.trans (kept ownKey isEqual)
        · exact sheds.notPattern isEqual
      have byEntry := entry_covers_shed plain own member sameKey yields numbered notPattern sheds
      exact ⟨_, isEntry, entry_key.trans ownKey, byEntry.trans covers⟩
    · by_cases sameSlot : existing.slot = (set.entry filter).slot
      · have byEntry := entry_covers_replaced plain own member sameKey yields numbered theirs sameSlot
        exact ⟨_, isEntry, entry_key.trans ownKey, byEntry.trans covers⟩
      · exact ⟨existing, (mem_add plain own).mpr (Or.inr ⟨member, fun _ => sheds, sameSlot⟩), onKey, covers⟩
  · have apart : existing.slot ≠ (set.entry filter).slot := fun sameSlot =>
      sameKey ((Filter.slot_injective (plain existing member) (entry_plainKey own) sameSlot).1.trans entry_key)
    exact ⟨existing, (mem_add plain own).mpr (Or.inr ⟨member, fun same => absurd same sameKey, apart⟩), onKey, covers⟩

theorem Takes.add {head : Filter} {rest : List Filter} {key : String} (own : head.PlainKey)
    (takes : set.Takes (head :: rest) key) : (set.add head).Takes rest key where
  numbered := fun filter inRest => takes.numbered filter (List.mem_cons_of_mem head inRest)
  existing := by
    intro existing member onKey
    rcases (mem_add plain own).mp member with rfl | ⟨inside, -⟩
    · have headKey : head.key = key := entry_key.symm.trans onKey
      constructor
      · exact entry_numbered.mpr (takes.numbered head List.mem_cons_self headKey)
      · intro filter inRest filterKey
        exact (entry_precedes ((List.pairwise_cons.mp takes.apart).1 filter inRest headKey filterKey)).1
    · obtain ⟨numbered, yields⟩ := takes.existing existing inside onKey
      exact ⟨numbered, fun filter inRest => yields filter (List.mem_cons_of_mem head inRest)⟩
  apart := takes.apart.of_cons

omit plain in
theorem Covers.add_narrows (measures : set.Measures) {filter : Filter} (own : filter.Measures)
    (verdict : set.judge filter = .narrows) (notPattern : Filter.isPattern other.op = false) (covered : set.Covers other) :
    (set.add filter).Covers other := by
  have numbered := own.definite.2
  have takes : set.Takes [filter] other.key := by
    constructor
    · rw [List.forall_mem_singleton]
      exact fun _ => numbered
    · intro existing member onKey
      have theirs := (measures existing member).definite.2
      rw [List.forall_mem_singleton]
      refine ⟨theirs, fun filterKey => ?_⟩
      have free := judge_free measures.plainKeys own.plainKey verdict existing member (onKey.trans filterKey.symm)
      exact Filter.yields_of_free theirs numbered free
    · exact List.pairwise_singleton _ _
  exact covered.add measures.plainKeys own.plainKey takes fun _ _ => notPattern

/-- What a set covers, or takes itself, is covered in the end. A pattern has to come after an equality on its key. -/
theorem foldl_add_covers {filters : List Filter} (own : ∀ filter ∈ filters, filter.PlainKey)
    (ordered : filters.Pairwise fun a b => a.slot < b.slot) (takes : set.Takes filters other.key)
    (late : Filter.isPattern other.op → ∀ filter ∈ filters, filter.key = other.key → filter.op = .equal →
      other ∈ filters ∧ filter.slot < other.slot)
    (covered : set.Covers other ∨ other ∈ filters) : (filters.foldl add set).Covers other := by
  induction filters generalizing set with
  | nil => simpa using covered
  | cons head rest ih =>
    have ownHead := own head List.mem_cons_self
    have first := (List.pairwise_cons.mp ordered).1
    apply ih (add_plainKeys plain ownHead) (fun filter inRest => own filter (List.mem_cons_of_mem head inRest))
      ordered.of_cons (takes.add plain ownHead)
    · intro isPattern filter inRest onKey isEqual
      obtain ⟨member, before⟩ := late isPattern filter (List.mem_cons_of_mem head inRest) onKey isEqual
      rcases List.mem_cons.mp member with rfl | inside
      · exact absurd (String.lt_trans before (first filter inRest)) (String.lt_irrefl _)
      · exact ⟨inside, before⟩
    · by_cases inRest : other ∈ rest
      · exact Or.inr inRest
      apply Or.inl
      rcases covered with covered | member
      · apply covered.add plain ownHead takes
        intro onKey isEqual
        by_contra isPattern
        obtain ⟨member, before⟩ := late (by simpa using isPattern) head List.mem_cons_self onKey isEqual
        rcases List.mem_cons.mp member with rfl | inside
        · exact String.lt_irrefl _ before
        · exact inRest inside
      · obtain rfl := (List.mem_cons.mp member).resolve_right inRest
        have numbered := takes.numbered other List.mem_cons_self rfl
        exact ⟨_, (mem_add plain ownHead).mpr (Or.inl rfl), entry_key, entry_covers numbered⟩

theorem merge_covers {incoming merged : FilterSet} (theirs : incoming.PlainKeys)
    (outcome : set.merge incoming = .merged merged) (takes : set.Takes (set.additions incoming) other.key)
    (late : Filter.isPattern other.op → ∀ filter ∈ set.additions incoming, filter.key = other.key → filter.op = .equal →
      other ∈ set.additions incoming ∧ filter.slot < other.slot)
    (covered : set.Covers other ∨ other ∈ incoming.filters) : merged.Covers other := by
  rcases merge_cases set incoming with ⟨same, -⟩ | ⟨same, -⟩ | ⟨same, -, settled⟩
  · simp [same] at outcome
  · simp [same] at outcome
  · obtain rfl := Merge.merged.inj (same.symm.trans outcome)
    apply foldl_add_covers plain (fun filter member => theirs filter (mem_additions.mp member).1)
      (additions_ordered set incoming) takes late
    rcases covered with covered | member
    · exact Or.inl covered
    · rcases settled other member with narrows | implied
      · exact Or.inr (mem_additions.mpr ⟨member, narrows⟩)
      · have weighed := judge_weighed plain (theirs other member)
        rw [implied] at weighed
        cases weighed with
        | implied existing inside sameKey covers => exact Or.inl ⟨existing, inside, sameKey, covers⟩

end
end FilterSet
end MapStyle
