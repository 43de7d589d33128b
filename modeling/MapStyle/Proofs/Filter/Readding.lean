import MapStyle.Proofs.Filter.Covering
import MapStyle.Proofs.Filter.Reevaluation
import MapStyle.Proofs.Filter.Satisfaction
/-!
Adding the filters of a set again, in the order of their slots, as evaluating a set in its own scope does, and merging it
into the empty set. On each key come the exclusions, then the bound from above, then the one from below, so that only the
bound from below meets another one. Where it meets it in vain, evaluating refuses the bound from below, and merging lets
it displace the one from above.
-/
namespace MapStyle

theorem foldl_prefix_induct {α β : Type} {f : β → α → β} {all : List α} {start : β} {motive : List α → β → Prop}
    (base : motive [] start) (step : ∀ before item rest state, all = before ++ item :: rest → motive before state →
      motive (before ++ [item]) (f state item)) : motive all (all.foldl f start) := by
  have run : ∀ rest before state, all = before ++ rest → motive before state → motive all (rest.foldl f state) := by
    intro rest
    induction rest with
    | nil =>
      intro before state split holds
      rw [split, List.append_nil]
      exact holds
    | cons item rest ih =>
      intro before state split holds
      exact ih (before ++ [item]) (f state item) (by simp [split]) (step before item rest state split holds)
  exact run all [] start rfl base

namespace Filter

/-- A bound from above at the place of one from below. -/
structure Meets (low high : Filter) : Prop where
  lower : low.isLower
  upper : high.isUpper
  sameKey : high.key = low.key
  sameBound : high.bound = low.bound

theorem Meets.early {low high : Filter} (meets : low.Meets high) : high.op.mark < low.op.mark := by
  have lower := meets.lower
  have upper := meets.upper
  revert lower upper
  cases lowOp : low.op <;> cases highOp : high.op <;> simp [isLower, isUpper, Comparison.mark, lowOp, highOp]

theorem Meets.notLower {low high : Filter} (meets : low.Meets high) : high.isLower = false := by
  have upper := meets.upper
  revert upper
  cases op : high.op <;> simp [isLower, isUpper, op]

/-- The comparisons differ at most in one being strict. -/
structure Resembles (a b : Filter) : Prop where
  key : a.key = b.key
  value : a.value = b.value
  lower : a.isLower = b.isLower
  upper : a.isUpper = b.isUpper
  mark : a.op.mark = b.op.mark

theorem Stems.origin {filters : List Filter} {filter : Filter} (stems : Stems filters filter) :
    ∃ origin ∈ filters, origin.Resembles filter ∧ (origin.op = filter.op ∨ ∃ excluded ∈ filters,
      excluded.key = filter.key ∧ excluded.op = .different ∧ excluded.value = filter.value) := by
  rcases stems with member | ⟨inclusive, member, excluded, listed, ⟨op, rfl⟩ | ⟨op, rfl⟩, excludes⟩
  · exact ⟨filter, member, ⟨rfl, rfl, rfl, rfl, rfl⟩, Or.inl rfl⟩
  all_goals
    refine ⟨inclusive, member, ⟨rfl, rfl, ?_, ?_, ?_⟩, Or.inr ⟨excluded, listed, excludes⟩⟩
    · simp [isLower, op]
    · simp [isUpper, op]
    · simp [Comparison.mark, op]

theorem Resembles.meets_iff {low a b : Filter} (resembles : a.Resembles b) : low.Meets a ↔ low.Meets b := by
  have sameBound := bound_congr resembles.value
  constructor
  · rintro ⟨lower, upper, sameKey, meets⟩
    exact ⟨lower, resembles.upper.symm.trans upper, resembles.key.symm.trans sameKey, sameBound.symm.trans meets⟩
  · rintro ⟨lower, upper, sameKey, meets⟩
    exact ⟨lower, resembles.upper.trans upper, resembles.key.trans sameKey, sameBound.trans meets⟩

theorem mark_different {op : Comparison} : op.mark = '!' ↔ op = .different := by
  cases op <;> simp [Comparison.mark]

theorem mark_different_lt {low : Filter} (lower : low.isLower) : Comparison.different.mark < low.op.mark := by
  revert lower
  cases op : low.op <;> simp [isLower, Comparison.mark, op]

section
variable {existing filter : Filter} (beside : existing.Beside filter)
  (notPattern : isPattern existing.op = false ∧ isPattern filter.op = false)
include beside notPattern

theorem exclusion_of_early (early : existing.op.mark ≤ filter.op.mark) (notLower : filter.isLower = false) :
    existing.op = .different := by
  have notEqual := beside.notEqual
  have otherNotEqual := beside.otherNotEqual
  have upper := beside.upper
  revert early notLower notEqual otherNotEqual upper notPattern
  cases op : filter.op <;> cases old : existing.op <;>
    simp [isLower, isUpper, isPattern, Comparison.mark, op, old]

theorem upper_of_beside (lower : filter.isLower) : existing.op = .different ∨ existing.isUpper := by
  have notEqual := beside.notEqual
  have otherNotEqual := beside.otherNotEqual
  have notLower := beside.symm.lower lower
  revert lower notEqual otherNotEqual notLower notPattern
  cases op : filter.op <;> cases old : existing.op <;> simp [isLower, isUpper, isPattern, op, old]

end

theorem refutes_lower_iff {low high : Filter} (lower : low.isLower) (upper : high.isUpper) (lowNumber : low.IsNumber)
    (highNumber : high.IsNumber) (room : low.bound ≤ high.bound) :
    high.Refutes low ↔ high.bound = low.bound ∧ (low.op = .greater ∨ high.op = .less) := by
  revert lower upper
  cases lowOp : low.op <;> cases highOp : high.op <;>
    simp [Refutes, isLower, isUpper, Upto, Under, lowNumber, highNumber, lowOp, highOp]
  all_goals grind

theorem Covers.holds {existing filter : Filter} (covers : existing.Covers filter)
    (settled : existing.op = .equal → filter.op = .equal) {x : EReal} (holds : existing.op.holds x existing.bound) :
    filter.op.holds x filter.bound := by
  have sameBound := @bound_congr existing filter
  revert covers settled holds
  cases new : filter.op <;> cases old : existing.op <;>
    simp [Covers, Excludes, Upto, Under, Comparison.holds, new, old] <;> grind

end Filter

namespace FilterSet

def readd (set : FilterSet) (filter : Filter) : FilterSet :=
  if set.judge filter = .narrows then set.add filter else set

/-- A bound from below that meets one from above in vain once the filters are added in order. -/
def Refused (set : FilterSet) (low : Filter) : Prop :=
  ∃ high ∈ set.filters, low.Meets high ∧ (low.op = .greater ∨ high.op = .less ∨
    ∃ excluded ∈ set.filters, excluded.key = low.key ∧ excluded.op = .different ∧ excluded.value = high.value)

theorem Refused.lower {set : FilterSet} {low : Filter} (refused : set.Refused low) : low.isLower := by
  obtain ⟨high, -, meets, -⟩ := refused
  exact meets.lower

/-- A bound from above that a strict one from below meets. -/
def Displaced (set : FilterSet) (high : Filter) : Prop := ∃ low ∈ set.filters, low.op = .greater ∧ low.Meets high

/-- What holds of a set each of whose filters narrowed it when it was added. -/
structure Narrowed (set : FilterSet) : Prop extends Single set where
  measures : set.Measures
  ranged : Ranged set
  within : ∀ high ∈ set.filters, high.isUpper → ∀ excluded ∈ set.filters, excluded.op = .different →
    excluded.key = high.key → excluded.bound ≤ high.bound

theorem Narrowed.add {set : FilterSet} {filter : Filter} (narrowed : Narrowed set) (own : filter.Measures)
    (verdict : set.judge filter = .narrows) : Narrowed (set.add filter) where
  toSingle := narrowed.toSingle.add narrowed.measures own verdict
  measures := add_measures narrowed.measures own
  ranged := narrowed.ranged.add narrowed.measures own verdict
  within := by
    have plain := narrowed.measures.plainKeys
    have free := judge_free plain own.plainKey verdict
    intro high highMember upper excluded member isExclusion onKey
    rcases (mem_add plain own.plainKey).mp highMember with rfl | ⟨highInside, -, -⟩ <;>
      rcases (mem_add plain own.plainKey).mp member with rfl | ⟨inside, kept, -⟩
    · simp [Filter.isUpper, isExclusion] at upper
    · rw [entry_isUpper] at upper
      rw [entry_key] at onKey
      rw [entry_bound]
      have kept := kept onKey
      have theirNumber := (narrowed.measures excluded inside).isNumber
      have ownNumber := own.isNumber
      revert upper kept
      cases op : filter.op <;>
        simp [Filter.isUpper, Filter.Sheds, Filter.isPattern, Filter.Upto, Filter.Under, op, isExclusion, theirNumber,
          ownNumber]
      all_goals grind
    · have ownExclusion := entry_different_iff.mp isExclusion
      rw [entry_key] at onKey
      rw [entry_bound]
      have uncovered := (free high highInside onKey.symm).2
      have theirNumber := (narrowed.measures high highInside).isNumber
      have ownNumber := own.isNumber
      revert upper uncovered
      cases op : high.op <;>
        simp [Filter.isUpper, Filter.Covers, Filter.Excludes, Filter.Upto, Filter.Under, op, ownExclusion, theirNumber,
          ownNumber]
      all_goals grind
    · exact narrowed.within high highInside upper excluded inside isExclusion onKey

theorem narrowed_empty : Narrowed empty where
  toSingle := single_empty
  measures := by simp [Measures, empty]
  ranged := ranged_empty
  within := by simp [empty]

/-- What the filters before some place of a set were added to. -/
structure Walk (before : List Filter) (walked : FilterSet) : Prop where
  measures : walked.Measures
  stems : ∀ added ∈ walked.filters, Filter.Stems before added

section
variable {set : FilterSet} (narrowed : Narrowed set) {before rest : List Filter} {filter : Filter}
  (split : set.filters = before ++ filter :: rest)

section
include split

theorem mem_of_split : filter ∈ set.filters := by simp [split]

theorem mem_of_before {origin : Filter} (member : origin ∈ before) : origin ∈ set.filters := by simp [split, member]

theorem slot_lt_of_before {origin : Filter} (member : origin ∈ before) : origin.slot < filter.slot := by
  have ordered := set.ordered
  rw [split] at ordered
  exact (List.pairwise_append.mp ordered).2.2 origin member filter List.mem_cons_self

theorem before_of_mark {origin : Filter} (member : origin ∈ set.filters) (sameKey : origin.key = filter.key)
    (early : origin.op.mark < filter.op.mark) : origin ∈ before := by
  have below := Filter.slot_lt_of_mark sameKey early
  have ordered := set.ordered
  rw [split] at ordered member
  rcases List.mem_append.mp member with inside | later
  · exact inside
  rcases List.mem_cons.mp later with rfl | inRest
  · exact absurd below (String.lt_irrefl _)
  · have above := (List.pairwise_cons.mp (List.pairwise_append.mp ordered).2.1).1 origin inRest
    exact absurd (String.lt_trans below above) (String.lt_irrefl _)

include narrowed

theorem beside_of_before {origin : Filter} (member : origin ∈ before) (sameKey : origin.key = filter.key) :
    origin.Beside filter := by
  have differ : origin ≠ filter := fun same => String.lt_irrefl _ (same ▸ slot_lt_of_before split member)
  exact narrowed.toSingle.beside (mem_of_before split member) (mem_of_split split) differ sameKey

variable {walked : FilterSet} (walk : Walk before walked) {added : Filter} (member : added ∈ walked.filters)
include walk member

/-- What was added on the key of a filter: exclusions, and before a bound from below one from above that leaves room. -/
theorem Walk.meets (onKey : added.key = filter.key) : filter.op ≠ .equal ∧ ((added.op = .different ∧ added ∈ before) ∨
    (filter.isLower ∧ added.isUpper ∧ filter.bound ≤ added.bound)) := by
  obtain ⟨origin, inside, resembles, -⟩ := (walk.stems added member).origin
  have sameKey := resembles.key.trans onKey
  have beside := beside_of_before narrowed split inside sameKey
  have early := Filter.mark_le_of_slot sameKey (slot_lt_of_before split inside)
  have notPattern := And.intro (narrowed.measures origin (mem_of_before split inside)).notPattern
    (narrowed.measures filter (mem_of_split split)).notPattern
  refine ⟨beside.otherNotEqual, ?_⟩
  have exclusion : origin.op = .different → added.op = .different ∧ added ∈ before := by
    intro isExclusion
    have same : added.op = .different := Filter.mark_different.mp (by rw [← resembles.mark, isExclusion]; rfl)
    exact ⟨same, (walk.stems added member).mem (by simp [same])⟩
  by_cases lower : filter.isLower
  · rcases Filter.upper_of_beside beside notPattern lower with isExclusion | upper
    · exact Or.inl (exclusion isExclusion)
    · refine Or.inr ⟨lower, resembles.upper.symm.trans upper, ?_⟩
      rw [← Filter.bound_congr resembles.value]
      exact narrowed.ranged filter (mem_of_split split) lower origin (mem_of_before split inside) upper sameKey
  · exact Or.inl (exclusion (Filter.exclusion_of_early beside notPattern early (by simpa using lower)))

theorem Walk.yields (uncut : filter.op = .greater → ¬ filter.Meets added) (onKey : added.key = filter.key) :
    added.Yields filter := by
  obtain ⟨notEqual, ⟨isExclusion, -⟩ | ⟨lower, upper, room⟩⟩ := walk.meets narrowed split member onKey
  · cases op : filter.op <;> simp [Filter.Yields, Filter.isLower, Filter.isUpper, isExclusion, op] at notEqual ⊢
  · have ownNumber := (narrowed.measures filter (mem_of_split split)).isNumber
    have theirNumber := (walk.measures added member).isNumber
    have apart : filter.op = .greater → added.bound ≠ filter.bound :=
      fun strict sameBound => uncut strict ⟨lower, upper, onKey, sameBound⟩
    revert lower upper apart
    cases op : filter.op <;> cases old : added.op <;>
      simp [Filter.Yields, Filter.isLower, Filter.isUpper, Filter.Upto, Filter.Under, ownNumber, theirNumber, room, op, old]
    all_goals exact fun apart => lt_of_le_of_ne room (Ne.symm apart)

theorem Walk.resembles_of_upper {high : Filter} (inSet : high ∈ set.filters) (isUpper : high.isUpper)
    (onKey : added.key = high.key) (upper : added.isUpper) : high ∈ before ∧ high.Resembles added := by
  obtain ⟨origin, inside, resembles, -⟩ := (walk.stems added member).origin
  have same := narrowed.upper high inSet isUpper origin (mem_of_before split inside)
    (resembles.upper.trans upper) (resembles.key.trans onKey)
  exact ⟨same ▸ inside, same ▸ resembles⟩

theorem Walk.aligned (verdict : walked.judge filter = .narrows) {high : Filter} (inSet : high ∈ set.filters)
    (meets : filter.Meets high) (onKey : added.key = filter.key) (upper : added.isUpper) :
    high.Resembles added ∧ filter.op ≠ .greater ∧ added.op = .atMost := by
  have own := narrowed.measures filter (mem_of_split split)
  have resembles :=
    (walk.resembles_of_upper narrowed split member inSet meets.upper (onKey.trans meets.sameKey.symm) upper).2
  have meetsAdded := resembles.meets_iff.mp meets
  have notRefuted := (judge_free walk.measures.plainKeys own.plainKey verdict added member onKey).1
  rw [Filter.refutes_lower_iff meets.lower upper own.isNumber (walk.measures added member).isNumber
    meetsAdded.sameBound.ge] at notRefuted
  have notStrict := not_or.mp (not_and.mp notRefuted meetsAdded.sameBound)
  refine ⟨resembles, notStrict.1, ?_⟩
  revert upper notStrict
  cases op : added.op <;> simp [Filter.isUpper, op]

omit narrowed in
theorem Walk.refused (meets : filter.Meets added) (strict : filter.op = .greater ∨ added.op = .less) :
    set.Refused filter := by
  obtain ⟨high, inside, resembles, sharpened⟩ := (walk.stems added member).origin
  refine ⟨high, mem_of_before split inside, resembles.meets_iff.mpr meets, ?_⟩
  rcases strict with isGreater | isLess
  · exact Or.inl isGreater
  rcases sharpened with sameOp | ⟨excluded, listed, onKey, isExclusion, sameValue⟩
  · exact Or.inr (Or.inl (sameOp.trans isLess))
  · exact Or.inr (Or.inr ⟨excluded, mem_of_before split listed, onKey.trans meets.sameKey, isExclusion,
      sameValue.trans resembles.value.symm⟩)

omit member in
theorem Walk.narrows (allowed : ¬ set.Refused filter) : walked.judge filter = .narrows := by
  have own := narrowed.measures filter (mem_of_split split)
  have weighed := judge_weighed walk.measures.plainKeys own.plainKey
  generalize walked.judge filter = verdict at weighed ⊢
  cases weighed with
  | narrows free => rfl
  | implied other member onKey covers =>
    exfalso
    obtain ⟨notEqual, ⟨isExclusion, inside⟩ | ⟨lower, upper, -⟩⟩ := walk.meets narrowed split member onKey
    · -- the same exclusion has the same slot
      have same : filter.op = .different ∧ other.value = filter.value := by
        revert covers
        cases op : filter.op <;> simp [Filter.Covers, Filter.Excludes, isExclusion, op]
      have sameSlot : other.slot = filter.slot := by
        simp only [Filter.slot, isExclusion, same, onKey]
      exact String.lt_irrefl _ (sameSlot ▸ slot_lt_of_before split inside)
    · revert covers lower upper
      cases op : filter.op <;> cases old : other.op <;> simp [Filter.Covers, Filter.isLower, Filter.isUpper, op, old]
  | contradicts other member onKey refutes =>
    exfalso
    obtain ⟨notEqual, ⟨isExclusion, -⟩ | ⟨lower, upper, room⟩⟩ := walk.meets narrowed split member onKey
    · revert refutes notEqual
      cases op : filter.op <;> simp [Filter.Refutes, isExclusion, op]
    · have theirs := walk.measures other member
      obtain ⟨sameBound, strict⟩ :=
        (Filter.refutes_lower_iff lower upper own.isNumber theirs.isNumber room).mp refutes
      exact allowed (walk.refused split member ⟨lower, upper, onKey, sameBound⟩ strict)

end

end

theorem Walk.skip {before : List Filter} {filter : Filter} {walked : FilterSet} (walk : Walk before walked) :
    Walk (before ++ [filter]) walked where
  measures := walk.measures
  stems := fun added member => (walk.stems added member).mono (List.subset_append_left _ _)

theorem Walk.add {before : List Filter} {filter : Filter} {walked : FilterSet} (walk : Walk before walked)
    (own : filter.Measures) : Walk (before ++ [filter]) (walked.add filter) where
  measures := add_measures walk.measures own
  stems := stems_add walk.measures.plainKeys own.plainKey (by simp) walk.skip.stems

theorem Walk.accepts_iff {set result : FilterSet} (narrowed : Narrowed set) (walk : Walk set.filters result)
    {gone : Filter → Prop} (bounds : ∀ filter, gone filter → filter.isLower ∨ filter.isUpper)
    (absent : ∀ added ∈ result.filters, ∀ filter ∈ set.filters, filter.Resembles added → ¬ gone filter)
    (covers : ∀ filter ∈ set.filters, ¬ gone filter → result.Covers filter) (feature : Feature) :
    result.accepts feature ↔ ∀ filter ∈ set.filters, ¬ gone filter → filter.accepts feature := by
  constructor
  · intro accepted filter member stays
    obtain ⟨added, inside, onKey, covers⟩ := covers filter member stays
    rw [(narrowed.measures filter member).isNumber.accepts_iff, ← onKey]
    apply covers.holds
    · -- an equality stands alone on its key
      intro isEqual
      have listed := (walk.stems added inside).mem (by simp [isEqual])
      rw [narrowed.alone added listed isEqual filter member onKey.symm]
      exact isEqual
    · exact ((walk.measures added inside).isNumber.accepts_iff feature).mp (accepted added inside)
  · intro accepted added inside
    obtain ⟨origin, member, resembles, sharpened⟩ := (walk.stems added inside).origin
    have atOrigin := ((narrowed.measures origin member).isNumber.accepts_iff feature).mp
      (accepted origin member (absent added inside origin member resembles))
    rw [(walk.measures added inside).isNumber.accepts_iff]
    rw [resembles.key, Filter.bound_congr resembles.value] at atOrigin
    rcases sharpened with sameOp | ⟨excluded, listed, onKey, isExclusion, sameValue⟩
    · rwa [sameOp] at atOrigin
    · have stays : ¬ gone excluded := by
        intro isGone
        have isBound := bounds excluded isGone
        simp [Filter.isLower, Filter.isUpper, isExclusion] at isBound
      have atExcluded := ((narrowed.measures excluded listed).isNumber.accepts_iff feature).mp
        (accepted excluded listed stays)
      rw [onKey, isExclusion, Filter.bound_congr sameValue] at atExcluded
      have lower := resembles.lower
      have upper := resembles.upper
      have mark := resembles.mark
      revert atOrigin atExcluded lower upper mark
      cases op : origin.op <;> cases old : added.op <;>
        simp [Comparison.holds, Filter.isLower, Filter.isUpper, Comparison.mark, op, old] <;> grind

/-- Where filters are judged again, the refused ones alone are gone, and no bound from above has its value excluded. -/
structure Retrace (set : FilterSet) (before : List Filter) (walked : FilterSet) : Prop extends Walk before walked where
  covers : ∀ filter ∈ before, ¬ set.Refused filter → walked.Covers filter
  refused : ∀ low ∈ set.filters, set.Refused low → ∀ added ∈ walked.filters, added.isLower → added.key ≠ low.key
  clear : ∀ high ∈ walked.filters, high.isUpper → ∀ excluded ∈ walked.filters, excluded.op = .different →
    excluded.key = high.key → excluded.value ≠ high.value

theorem retrace_empty (set : FilterSet) : Retrace set [] empty := by
  constructor
  · constructor <;> simp [Measures, empty]
  all_goals simp [empty]

section
variable {set : FilterSet} (narrowed : Narrowed set) {before rest : List Filter} {filter : Filter}
  (split : set.filters = before ++ filter :: rest) {walked : FilterSet} (retrace : Retrace set before walked)
include narrowed split retrace

theorem Retrace.refuses (refused : set.Refused filter) : walked.judge filter ≠ .narrows := by
  intro verdict
  have walk := retrace.toWalk
  obtain ⟨high, highMember, meets, strict⟩ := refused
  have stays : ∀ other : Filter, other.isLower = false → ¬ set.Refused other := by
    intro other notLower otherRefused
    simp [otherRefused.lower] at notLower
  have highBefore := before_of_mark split highMember meets.sameKey meets.early
  obtain ⟨added, member, onKey, covers⟩ := retrace.covers high highBefore (stays high meets.notLower)
  have upper : added.isUpper := by
    rcases (walk.meets narrowed split member (onKey.trans meets.sameKey)).2 with ⟨isExclusion, -⟩ | ⟨-, upper, -⟩
    · have highUpper := meets.upper
      revert covers highUpper
      cases op : high.op <;> simp [Filter.Covers, Filter.isUpper, isExclusion, op]
    · exact upper
  obtain ⟨resembles, notGreater, isAtMost⟩ := walk.aligned narrowed split member verdict highMember meets (onKey.trans meets.sameKey) upper
  have sameBound := Filter.bound_congr resembles.value
  rcases strict with isGreater | isLess | ⟨excluded, listed, excludedKey, isExclusion, sameValue⟩
  · exact notGreater isGreater
  · simp [Filter.Covers, Filter.Under, isLess, isAtMost, sameBound] at covers
  -- the exclusion is covered, by itself or by the bound, which does not exclude its own value
  · have excludedBefore := before_of_mark split listed excludedKey
      (by rw [isExclusion]; exact Filter.mark_different_lt meets.lower)
    obtain ⟨other, otherMember, otherKey, covers⟩ := retrace.covers excluded excludedBefore
      (stays excluded (by simp [Filter.isLower, isExclusion]))
    have onFilter := otherKey.trans excludedKey
    rcases (walk.meets narrowed split otherMember onFilter).2 with ⟨otherExclusion, -⟩ | ⟨-, otherUpper, -⟩
    · simp only [Filter.Covers, Filter.Excludes, isExclusion, otherExclusion] at covers
      exact retrace.clear added member upper other otherMember otherExclusion
        (onFilter.trans (onKey.trans meets.sameKey).symm) (covers.trans (sameValue.trans resembles.value))
    · obtain ⟨otherResembles, -, otherAtMost⟩ := walk.aligned narrowed split otherMember verdict highMember meets onFilter otherUpper
      have atOther := Filter.bound_congr (sameValue.trans otherResembles.value)
      simp [Filter.Covers, Filter.Excludes, Filter.Under, isExclusion, otherAtMost, atOther] at covers

omit narrowed split in
theorem Retrace.skip (refused : set.Refused filter) : Retrace set (before ++ [filter]) walked where
  toWalk := retrace.toWalk.skip
  covers := by
    intro other member stays
    rcases List.mem_append.mp member with inside | last
    · exact retrace.covers other inside stays
    · rw [List.mem_singleton.mp last] at stays
      exact absurd refused stays
  refused := retrace.refused
  clear := retrace.clear

theorem Retrace.clear_add : ∀ high ∈ (walked.add filter).filters, high.isUpper →
    ∀ excluded ∈ (walked.add filter).filters, excluded.op = .different → excluded.key = high.key →
      excluded.value ≠ high.value := by
  have walk := retrace.toWalk
  have own := narrowed.measures filter (mem_of_split split)
  have plain := walk.measures.plainKeys
  intro high highMember upper excluded member isExclusion onKey
  rcases (mem_add plain own.plainKey).mp highMember with rfl | ⟨highInside, -, -⟩ <;>
    rcases (mem_add plain own.plainKey).mp member with rfl | ⟨inside, kept, -⟩
  · simp [Filter.isUpper, isExclusion] at upper
  · have kept := kept (onKey.trans entry_key)
    have theirNumber := (walk.measures excluded inside).isNumber
    have sameBound := @Filter.bound_congr excluded filter
    rw [entry_isUpper] at upper
    rw [entry_value]
    revert kept upper
    cases op : filter.op <;>
      simp [Filter.Sheds, Filter.Upto, Filter.isUpper, Filter.isPattern, op, isExclusion, theirNumber, own.isNumber]
    grind
  · have ownExclusion := entry_different_iff.mp isExclusion
    have highKey := onKey.symm.trans entry_key
    rcases (walk.meets narrowed split highInside highKey).2 with ⟨highExclusion, -⟩ | ⟨lower, -⟩
    · simp [Filter.isUpper, highExclusion] at upper
    · simp [Filter.isLower, ownExclusion] at lower
  · exact retrace.clear high highInside upper excluded inside isExclusion onKey

theorem Retrace.add (allowed : ¬ set.Refused filter) : Retrace set (before ++ [filter]) (walked.add filter) := by
  have walk := retrace.toWalk
  have own := narrowed.measures filter (mem_of_split split)
  have plain := walk.measures.plainKeys
  refine ⟨walk.add own, ?_, ?_, retrace.clear_add narrowed split⟩
  · intro other member stays
    rcases List.mem_append.mp member with inside | last
    · have notPattern := (narrowed.measures other (mem_of_before split inside)).notPattern
      have verdict := walk.narrows narrowed split allowed
      exact (retrace.covers other inside stays).add_narrows walk.measures own verdict notPattern
    · rw [List.mem_singleton.mp last]
      exact ⟨_, (mem_add plain own.plainKey).mpr (Or.inl rfl), entry_key, entry_covers own.definite.2⟩
  · intro low inSet lowRefused added member lower
    rcases (mem_add plain own.plainKey).mp member with rfl | ⟨inside, -⟩
    · rw [entry_isLower] at lower
      rw [entry_key]
      intro sameKey
      have same := narrowed.lower low inSet lowRefused.lower filter (mem_of_split split) lower sameKey
      exact allowed (same ▸ lowRefused)
    · exact retrace.refused low inSet lowRefused added inside lower

theorem Retrace.step : Retrace set (before ++ [filter]) (walked.readd filter) := by
  by_cases refused : set.Refused filter
  · have skipped : walked.readd filter = walked := if_neg (retrace.refuses narrowed split refused)
    rw [skipped]
    exact retrace.skip refused
  · have isAdded : walked.readd filter = walked.add filter := if_pos (retrace.toWalk.narrows narrowed split refused)
    rw [isAdded]
    exact retrace.add narrowed split refused

end

/-- Where filters are added without being judged, the displaced ones alone are gone. -/
structure Laid (set : FilterSet) (before : List Filter) (walked : FilterSet) : Prop extends Walk before walked where
  covers : ∀ filter ∈ before, ¬ set.Displaced filter → walked.Covers filter
  displaced : ∀ low ∈ before, low.op = .greater → ∀ added ∈ walked.filters, ¬ low.Meets added

theorem laid_empty (set : FilterSet) : Laid set [] empty := by
  constructor
  · constructor <;> simp [Measures, empty]
  all_goals simp

section
variable {set : FilterSet} (narrowed : Narrowed set) {before rest : List Filter} {filter : Filter}
  (split : set.filters = before ++ filter :: rest) {walked : FilterSet}
include narrowed split

theorem Walk.takes (walk : Walk before walked) {key : String} (uncut : filter.key = key → filter.op = .greater →
    ∀ added ∈ walked.filters, ¬ filter.Meets added) : walked.Takes [filter] key := by
  have own := narrowed.measures filter (mem_of_split split)
  constructor
  · rw [List.forall_mem_singleton]
    exact fun _ => own.definite.2
  · intro existing member onKey
    rw [List.forall_mem_singleton]
    refine ⟨(walk.measures existing member).definite.2, fun sameKey => ?_⟩
    exact walk.yields narrowed split member (fun strict => uncut sameKey strict existing member) (onKey.trans sameKey.symm)
  · exact List.pairwise_singleton _ _

theorem Walk.covers_of_cut (walk : Walk before walked) (strict : filter.op = .greater) {added : Filter}
    (member : added ∈ walked.filters) (meets : filter.Meets added) {other : Filter} (inside : other ∈ before)
    (sameKey : other.key = filter.key) (stays : ¬ set.Displaced other) : filter.Covers other := by
  have inSet := mem_of_before split inside
  obtain ⟨high, highMember, resembles, -⟩ := (walk.stems added member).origin
  have highInSet := mem_of_before split highMember
  have meetsHigh := resembles.meets_iff.mpr meets
  have notPattern := And.intro (narrowed.measures other inSet).notPattern
    (narrowed.measures filter (mem_of_split split)).notPattern
  rcases Filter.upper_of_beside (beside_of_before narrowed split inside sameKey) notPattern meets.lower with
    isExclusion | upper
  · have room := narrowed.within high highInSet meetsHigh.upper other inSet isExclusion (sameKey.trans meetsHigh.sameKey.symm)
    rw [meetsHigh.sameBound] at room
    have theirNumber := (narrowed.measures other inSet).isNumber
    have ownNumber := (narrowed.measures filter (mem_of_split split)).isNumber
    simpa only [Filter.Covers, Filter.Excludes, isExclusion, strict] using ⟨theirNumber, ownNumber, room⟩
  · have same := narrowed.upper high highInSet meetsHigh.upper other inSet upper (sameKey.trans meetsHigh.sameKey.symm)
    exact absurd ⟨filter, mem_of_split split, strict, same ▸ meetsHigh⟩ stays

theorem Laid.step (laid : Laid set before walked) : Laid set (before ++ [filter]) (walked.add filter) := by
  have walk := laid.toWalk
  have own := narrowed.measures filter (mem_of_split split)
  have plain := walk.measures.plainKeys
  have isEntry : walked.entry filter ∈ (walked.add filter).filters := (mem_add plain own.plainKey).mpr (Or.inl rfl)
  have entryCovers : (walked.entry filter).Covers filter := entry_covers own.definite.2
  refine ⟨walk.add own, ?_, ?_⟩
  · intro other member stays
    rcases List.mem_append.mp member with inside | last
    · have notPattern := (narrowed.measures other (mem_of_before split inside)).notPattern
      by_cases cut : other.key = filter.key ∧ filter.op = .greater ∧ ∃ added ∈ walked.filters, filter.Meets added
      · obtain ⟨sameKey, strict, added, addedMember, meets⟩ := cut
        have covers := walk.covers_of_cut narrowed split strict addedMember meets inside sameKey stays
        exact ⟨_, isEntry, entry_key.trans sameKey.symm, entryCovers.trans covers⟩
      · have takes : walked.Takes [filter] other.key := walk.takes narrowed split fun sameKey strict added inWalked meets =>
          cut ⟨sameKey.symm, strict, added, inWalked, meets⟩
        exact (laid.covers other inside stays).add plain own.plainKey takes fun _ _ => notPattern
    · rw [List.mem_singleton.mp last]
      exact ⟨_, isEntry, entry_key, entryCovers⟩
  · intro low member strict added addedMember meets
    rcases (mem_add plain own.plainKey).mp addedMember with rfl | ⟨inWalked, kept, -⟩ <;>
      rcases List.mem_append.mp member with inside | last
    · -- a bound from above does not come after one from below
      have early := Filter.mark_le_of_slot (meets.sameKey.symm.trans entry_key) (slot_lt_of_before split inside)
      have later := meets.early
      rw [entry_mark] at later
      exact absurd later (Char.not_lt.mpr early)
    · obtain rfl := List.mem_singleton.mp last
      have notLower := meets.notLower
      rw [entry_isLower, meets.lower] at notLower
      cases notLower
    · exact laid.displaced low inside strict added inWalked meets
    · obtain rfl := List.mem_singleton.mp last
      have theirs := walk.measures added inWalked
      apply kept meets.sameKey
      simpa only [Filter.Sheds, strict] using And.intro theirs.notPattern
        ⟨theirs.isNumber, own.isNumber, meets.sameBound.le⟩

end

theorem readd_accepts {set : FilterSet} (narrowed : Narrowed set) (feature : Feature) :
    (set.filters.foldl readd empty).accepts feature ↔
      ∀ filter ∈ set.filters, ¬ set.Refused filter → filter.accepts feature := by
  have retrace : Retrace set set.filters (set.filters.foldl readd empty) :=
    foldl_prefix_induct (retrace_empty set) fun _ _ _ _ split retrace => retrace.step narrowed split
  apply retrace.toWalk.accepts_iff narrowed
  · exact fun filter refused => Or.inl refused.lower
  · intro added member filter inSet resembles refused
    exact retrace.refused filter inSet refused added member (resembles.lower.symm.trans refused.lower) resembles.key.symm
  · exact retrace.covers

theorem foldl_add_accepts {set : FilterSet} (narrowed : Narrowed set) (feature : Feature) :
    (set.filters.foldl add empty).accepts feature ↔
      ∀ filter ∈ set.filters, ¬ set.Displaced filter → filter.accepts feature := by
  have laid : Laid set set.filters (set.filters.foldl add empty) :=
    foldl_prefix_induct (laid_empty set) fun _ _ _ _ split laid => laid.step narrowed split
  apply laid.toWalk.accepts_iff narrowed
  · rintro filter ⟨low, -, -, meets⟩
    exact Or.inr meets.upper
  · rintro added member filter inSet resembles ⟨low, lowMember, strict, meets⟩
    exact laid.displaced low lowMember strict added member (resembles.meets_iff.mp meets)
  · exact laid.covers

theorem not_accepts_of_lost {set : FilterSet} (narrowed : Narrowed set) {filter : Filter} (member : filter ∈ set.filters)
    (lost : set.Refused filter ∨ set.Displaced filter) (feature : Feature) : ¬ set.accepts feature := by
  have pinched : Filter.Pinched set.filters := by
    rcases lost with ⟨high, highMember, meets, strict⟩ | ⟨low, lowMember, strict, meets⟩
    · refine ⟨filter, member, high, highMember, meets.lower, meets.upper, meets.sameKey, meets.sameBound, ?_⟩
      rcases strict with strict | strict | ⟨excluded, listed, onKey, isExclusion, sameValue⟩
      · exact Or.inl strict
      · exact Or.inr (Or.inl strict)
      · exact Or.inr (Or.inr ⟨excluded, listed, onKey, isExclusion, (Filter.bound_congr sameValue).trans meets.sameBound⟩)
    · exact ⟨low, lowMember, filter, member, meets.lower, meets.upper, meets.sameKey, meets.sameBound, Or.inl strict⟩
  exact pinched.not_accepted narrowed.measures feature

theorem judge_empty (filter : Filter) : empty.judge filter = .narrows := by
  cases op : filter.op <;> simp [judge, judgeBound, excludes, bounds, contains, get?, empty, op]

theorem empty_merge {set : FilterSet} (nonempty : set.filters ≠ []) :
    empty.merge set = .merged (set.filters.foldl add empty) := by
  have all : empty.additions set = set.filters := List.filter_eq_self.mpr fun filter _ => by simp [judge_empty]
  rcases merge_cases empty set with ⟨-, filter, -, verdict⟩ | ⟨-, implied⟩ | ⟨outcome, -⟩
  · simp [judge_empty] at verdict
  · obtain ⟨filter, member⟩ := List.exists_mem_of_ne_nil _ nonempty
    have verdict := implied filter member
    simp [judge_empty] at verdict
  · rw [outcome, all]

theorem foldlM_readd {scope : Scope} {filters : List Filter} (start : FilterSet)
    (same : ∀ filter ∈ filters, reevaluateFilter scope filter = .ok filter) :
    filters.foldlM (fun (result : FilterSet) (filter : Filter) => do
      let filter ← reevaluateFilter scope filter
      return if result.judge filter = Verdict.narrows then result.add filter else result) start =
      Except.ok (filters.foldl readd start) := by
  induction filters generalizing start with
  | nil => rfl
  | cons head rest ih =>
    rw [List.foldlM_cons, same head List.mem_cons_self]
    exact ih (start.readd head) fun filter inRest => same filter (List.mem_cons_of_mem head inRest)

/-- Sets to which filters were added that were resolved in a scope, compare with numbers and narrowed the set. -/
inductive Gathered (scope : Scope) : FilterSet → Prop where
  | start : Gathered scope empty
  | add {set : FilterSet} {key : String} {op : Comparison} {source : Expression} {filter : Filter}
      (gathered : Gathered scope set) (resolves : Filter.resolve key op source scope = .ok filter)
      (measures : filter.Measures) (verdict : set.judge filter = .narrows) : Gathered scope (set.add filter)

theorem Gathered.narrowed {scope : Scope} {set : FilterSet} (gathered : Gathered scope set) : Narrowed set := by
  induction gathered with
  | start => exact narrowed_empty
  | add _ _ measures verdict ih => exact ih.add measures verdict

theorem Gathered.same {scope : Scope} {set : FilterSet} (gathered : Gathered scope set) :
    ∀ filter ∈ set.filters, reevaluateFilter scope filter = .ok filter := by
  have sourced : ∀ filter ∈ set.filters, ∃ source, filter.source = some source ∧ scope.evaluate source = .ok filter.value := by
    induction gathered with
    | start => simp [empty]
    | @add set key op source filter gathered resolves measures verdict ih =>
      have plain := gathered.narrowed.measures.plainKeys
      intro other member
      rcases (mem_add plain measures.plainKey).mp member with rfl | ⟨inside, -⟩
      · rw [entry_source, entry_value]
        unfold Filter.resolve at resolves
        cases evaluates : scope.evaluate source with
        | error error => rw [evaluates] at resolves; cases resolves
        | ok text => rw [evaluates] at resolves; cases resolves; exact ⟨source, rfl, evaluates⟩
      · exact ih other inside
  intro filter member
  obtain ⟨source, isSource, evaluates⟩ := sourced filter member
  simp only [reevaluateFilter, isSource, Filter.resolve, evaluates]
  exact congrArg Except.ok (by rw [← isSource])

/-- A set that is evaluated anew where its filters were resolved loses the refused bounds from below and nothing else.
Merged into the empty set it loses the displaced ones from above. A set with such a bound accepts nothing. -/
theorem readded_accepts {scope : Scope} {set : FilterSet} (gathered : Gathered scope set) :
    (∃ result, set.reevaluate scope = .ok result ∧ ∀ feature, result.accepts feature ↔
      ∀ filter ∈ set.filters, ¬ set.Refused filter → filter.accepts feature) ∧
    (set.filters ≠ [] → ∃ result, empty.merge set = .merged result ∧ ∀ feature, result.accepts feature ↔
      ∀ filter ∈ set.filters, ¬ set.Displaced filter → filter.accepts feature) ∧
    ∀ filter ∈ set.filters, set.Refused filter ∨ set.Displaced filter → ∀ feature, ¬ set.accepts feature := by
  have narrowed := gathered.narrowed
  refine ⟨⟨_, foldlM_readd empty gathered.same, readd_accepts narrowed⟩, ?_, ?_⟩
  · exact fun nonempty => ⟨_, empty_merge nonempty, foldl_add_accepts narrowed⟩
  · exact fun filter member lost => not_accepts_of_lost narrowed member lost

def twoLanesWritten (op : Comparison) : Filter :=
  ⟨"lanes", op, "2", some ⟨0, .number (Number.ofNat 2) none, ⟨"roads.mss", 1⟩⟩⟩

def clampedLanes : FilterSet :=
  ((empty.add (twoLanesWritten .atLeast)).add (twoLanesWritten .atMost)).add (twoLanesWritten .different)

theorem clampedLanes_gathered : Gathered Scope.empty clampedLanes := by
  have plain : ∀ c ∈ "lanes".toList, Filter.isOperatorChar c = false := by
    simpa using List.all_eq_true.mp (by decide : "lanes".toList.all fun c => !Filter.isOperatorChar c)
  have two : Number.read? (Text.trim "2") = some (Number.ofNat 2) := by decide +kernel
  have measures : ∀ op, Filter.isPattern op = false → (twoLanesWritten op).Measures :=
    fun op notPattern => ⟨notPattern, plain, _, two, by simp [Number.ofNat]⟩
  have resolves : ∀ op, Filter.resolve "lanes" op ⟨0, .number (Number.ofNat 2) none, ⟨"roads.mss", 1⟩⟩ Scope.empty =
      .ok (twoLanesWritten op) := by
    intro op
    have text : (Number.ofNat 2).text ++ "" = "2" := by decide +kernel
    simp only [Filter.resolve, Scope.evaluate, Scope.evaluateAt, Value.render, Option.getD_none, text]
    rfl
  apply Gathered.add (.add (.add .start (resolves _) (measures _ rfl) ?_) (resolves _) (measures _ rfl) ?_)
    (resolves _) (measures _ rfl)
  all_goals decide +kernel

theorem readded_accepts_lanes : (∀ feature, ¬ clampedLanes.accepts feature) ∧
    ∃ result, clampedLanes.reevaluate Scope.empty = .ok result ∧ result.accepts fun _ => Number.zero.position := by
  obtain ⟨⟨result, evaluated, meaning⟩, -, lost⟩ := readded_accepts clampedLanes_gathered
  have lanes : ∀ filter ∈ clampedLanes.filters, filter.key = "lanes" ∧ filter.value = "2" ∧
      (filter.op = .different ∨ filter.op = .atMost ∨ filter.op = .atLeast) := by decide +kernel
  have listed : ∀ op ∈ [Comparison.different, .atMost, .atLeast], ∃ filter ∈ clampedLanes.filters, filter.op = op := by
    decide +kernel
  have refused : ∀ low ∈ clampedLanes.filters, low.op = .atLeast → clampedLanes.Refused low := by
    intro low member isAtLeast
    obtain ⟨high, highMember, isAtMost⟩ := listed .atMost (by simp)
    obtain ⟨excluded, excludedMember, isExclusion⟩ := listed .different (by simp)
    obtain ⟨lowKey, lowValue, -⟩ := lanes low member
    obtain ⟨highKey, highValue, -⟩ := lanes high highMember
    obtain ⟨excludedKey, excludedValue, -⟩ := lanes excluded excludedMember
    refine ⟨high, highMember, ⟨?_, ?_, highKey.trans lowKey.symm, ?_⟩, Or.inr (Or.inr ?_)⟩
    · rw [Filter.isLower, isAtLeast]
    · rw [Filter.isUpper, isAtMost]
    · exact Filter.bound_congr (highValue.trans lowValue.symm)
    · exact ⟨excluded, excludedMember, excludedKey.trans lowKey.symm, isExclusion, excludedValue.trans highValue.symm⟩
  obtain ⟨low, lowMember, isAtLeast⟩ := listed .atLeast (by simp)
  refine ⟨lost low lowMember (Or.inl (refused low lowMember isAtLeast)), result, evaluated, (meaning _).mpr ?_⟩
  intro filter member kept
  have two : Number.read? (Text.trim "2") = some (Number.ofNat 2) := by decide +kernel
  have below : Number.zero.position < (Number.ofNat 2).position :=
    (Number.lt_iff_position (by simp [Number.zero]) (by simp [Number.ofNat])).mp (by decide +kernel)
  obtain ⟨-, value, op⟩ := lanes filter member
  refine ⟨Number.ofNat 2, by rw [Filter.numeric, value, two], ?_⟩
  rcases op with op | op | op
  · rw [op]; exact ne_of_lt below
  · rw [op]; exact le_of_lt below
  · exact absurd (refused filter member op) kept

end FilterSet
end MapStyle
