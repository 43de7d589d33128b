import MapStyle.Proofs.Filter.Coherence
/-!
Meaning of verdicts and of merging. Merging judges all filters of the other set by the set as it was and then adds them
one after the other; where the other set is coherent, none of them gets in the way of another, and the merged set
accepts what both sets accept.
-/
namespace MapStyle
namespace FilterSet

/-- What every step of a conjunction preserves that adds a filter, the conjunction preserves. -/
theorem foldlM_conjoin_induct {motive : FilterSet → Prop} {filters : List Filter} {set result : FilterSet}
    (step : ∀ set, motive set → ∀ filter ∈ filters, set.judge filter = .narrows → motive (set.add filter))
    (base : motive set) (conjoined : filters.foldlM conjoin? set = some result) : motive result := by
  induction filters generalizing set with
  | nil =>
    obtain rfl := Option.some.inj conjoined
    exact base
  | cons head rest ih =>
    have stepRest := fun set holds filter inRest => step set holds filter (List.mem_cons_of_mem head inRest)
    rw [List.foldlM_cons] at conjoined
    cases verdict : set.judge head with
    | narrows =>
      simp only [conjoin?, verdict] at conjoined
      exact ih stepRest (step set base head List.mem_cons_self verdict) conjoined
    | implied =>
      simp only [conjoin?, verdict] at conjoined
      exact ih stepRest base conjoined
    | contradicts => simp [conjoin?, verdict] at conjoined

variable {values : Set String} (one : OneText values) {set : FilterSet} (compares : set.Compares values)
include one compares

theorem judge_implied {filter : Filter} (own : filter.Compares values) (verdict : set.judge filter = .implied)
    {feature : Feature} (accepted : set.accepts feature) : filter.accepts feature := by
  have judged := judge_judged one compares own
  rw [verdict] at judged
  cases judged with
  | implied other member sameKey entails =>
    have holds := ((compares other member).accepts_iff one feature).mp (accepted other member)
    rw [sameKey] at holds
    exact (own.accepts_iff one feature).mpr (entails.sound holds)

theorem judge_contradicts {filter : Filter} (own : filter.Compares values) (verdict : set.judge filter = .contradicts)
    {feature : Feature} (accepted : set.accepts feature) : ¬ filter.accepts feature := by
  have judged := judge_judged one compares own
  rw [verdict] at judged
  cases judged with
  | contradicts other member sameKey opposes =>
    have holds := ((compares other member).accepts_iff one feature).mp (accepted other member)
    rw [sameKey] at holds
    exact fun onFilter => opposes.sound holds ((own.accepts_iff one feature).mp onFilter)

theorem judge_admits {filter : Filter} (own : filter.Compares values) (verdict : set.judge filter = .narrows) :
    ∀ other ∈ set.filters, other.key = filter.key → other.Admits filter := fun other member sameKey =>
  Filter.admits_of_free (compares other member).notPattern (judge_narrows one compares own verdict other member sameKey)

theorem conjoin_some {filter : Filter} (own : filter.Compares values) {result : FilterSet}
    (conjoined : set.conjoin? filter = some result) :
    result.Compares values ∧ (Single set → Single result) ∧
      ∀ feature, result.accepts feature ↔ set.accepts feature ∧ filter.accepts feature := by
  unfold conjoin? at conjoined
  split at conjoined
  · next verdict =>
    obtain rfl := Option.some.inj conjoined
    exact ⟨add_compares compares own, fun single => single.add (compares.measures one) (own.measures one) verdict,
      add_accepts one compares own (judge_admits one compares own verdict)⟩
  · next verdict =>
    obtain rfl := Option.some.inj conjoined
    exact ⟨compares, id, fun feature => ⟨fun accepted => ⟨accepted, judge_implied one compares own verdict accepted⟩, And.left⟩⟩
  · simp at conjoined

theorem conjoin_none {filter : Filter} (own : filter.Compares values) (conjoined : set.conjoin? filter = none)
    {feature : Feature} (accepted : set.accepts feature) : ¬ filter.accepts feature := by
  unfold conjoin? at conjoined
  split at conjoined
  · simp at conjoined
  · simp at conjoined
  · next verdict => exact judge_contradicts one compares own verdict accepted

omit one compares

/-- Two filters of a coherent set, of which the first may be added before the second. -/
theorem Coherent.admits (coherent : Coherent set) {a b : Filter} (aMember : a ∈ set.filters) (bMember : b ∈ set.filters)
    (differ : a ≠ b) (sameKey : a.key = b.key) : b.op ≠ .equal ∧ a.Admits b := by
  have bNotEqual : b.op ≠ .equal := fun isEqual => differ (coherent.alone b bMember isEqual a aMember sameKey)
  have aNotEqual : a.op ≠ .equal := fun isEqual => differ (coherent.alone a aMember isEqual b bMember sameKey.symm).symm
  have lower : b.isLower → a.isLower = false := fun bLower => Bool.eq_false_iff.mpr fun aLower =>
    differ (coherent.lower b bMember bLower a aMember aLower sameKey)
  have upper : b.isUpper → a.isUpper = false := fun bUpper => Bool.eq_false_iff.mpr fun aUpper =>
    differ (coherent.upper b bMember bUpper a aMember aUpper sameKey)
  have above : b.isLower → a.isUpper → b.bound < a.bound ∨ (b.bound = a.bound ∧ b.op = .atLeast ∧ a.op = .atMost) :=
    fun bLower aUpper => coherent.room b bMember bLower a aMember aUpper sameKey
  have below : b.isUpper → a.isLower → a.bound < b.bound ∨ (a.bound = b.bound ∧ a.op = .atLeast ∧ b.op = .atMost) :=
    fun bUpper aLower => coherent.room a aMember aLower b bMember bUpper sameKey.symm
  refine ⟨bNotEqual, ?_⟩
  cases op : b.op <;> simp_all [Filter.Admits, Filter.isLower, Filter.isUpper]
  all_goals grind

theorem entry_admits {filter later : Filter} (notEqual : later.op ≠ .equal) (admits : filter.Admits later) :
    (set.entry filter).Admits later := by
  have bound : (set.entry filter).bound = filter.bound := entry_bound
  have lower : (set.entry filter).isLower = filter.isLower := entry_isLower
  have upper : (set.entry filter).isUpper = filter.isUpper := entry_isUpper
  have equal : (set.entry filter).op = .equal ↔ filter.op = .equal := entry_equal_iff
  cases op : later.op <;> simp_all [Filter.Admits]

include one compares

theorem admitted_add {head : Filter} {rest : List Filter} (ownHead : head.Compares values)
    (admitted : ∀ filter ∈ rest, ∀ other ∈ set.filters, other.key = filter.key → other.Admits filter)
    (apart : ∀ filter ∈ rest, head.key = filter.key → filter.op ≠ .equal ∧ head.Admits filter) :
    ∀ filter ∈ rest, ∀ other ∈ (set.add head).filters, other.key = filter.key → other.Admits filter := by
  intro filter inRest other member sameKey
  rcases (mem_add_iff one compares ownHead).mp member with rfl | ⟨inside, -⟩
  · have headKey : head.key = filter.key := entry_key.symm.trans sameKey
    obtain ⟨notEqual, admits⟩ := apart filter inRest headKey
    exact entry_admits notEqual admits
  · exact admitted filter inRest other inside sameKey

theorem foldl_add {additions : List Filter} (own : ∀ filter ∈ additions, filter.Compares values)
    (admitted : ∀ filter ∈ additions, ∀ other ∈ set.filters, other.key = filter.key → other.Admits filter)
    (apart : additions.Pairwise fun a b => a.key = b.key → b.op ≠ .equal ∧ a.Admits b) :
    (additions.foldl add set).Compares values ∧ ∀ feature,
      (additions.foldl add set).accepts feature ↔ set.accepts feature ∧ ∀ filter ∈ additions, filter.accepts feature := by
  induction additions generalizing set with
  | nil => simpa using compares
  | cons head rest ih =>
    have ownHead := own head List.mem_cons_self
    have headAdmitted := admitted head List.mem_cons_self
    have admittedAfter := admitted_add one compares ownHead
      (fun filter inRest => admitted filter (List.mem_cons_of_mem head inRest)) (List.pairwise_cons.mp apart).1
    obtain ⟨comparesAfter, acceptsAfter⟩ := ih (add_compares compares ownHead)
      (fun filter inRest => own filter (List.mem_cons_of_mem head inRest)) admittedAfter apart.of_cons
    refine ⟨comparesAfter, fun feature => ?_⟩
    rw [List.foldl_cons, acceptsAfter, add_accepts one compares ownHead headAdmitted]
    simp [and_assoc]

omit one compares

/-- What a set has to say about another one: the filters that narrow it. -/
def additions (set other : FilterSet) : List Filter := other.filters.filter fun filter => set.judge filter = .narrows

theorem mem_additions {other : FilterSet} {filter : Filter} :
    filter ∈ set.additions other ↔ filter ∈ other.filters ∧ set.judge filter = .narrows := by
  simp [additions]

theorem additions_ordered (set other : FilterSet) : (set.additions other).Pairwise fun a b => a.slot < b.slot :=
  other.ordered.sublist List.filter_sublist

theorem merge_cases (set other : FilterSet) :
    (set.merge other = .conflict ∧ ∃ filter ∈ other.filters, set.judge filter = .contradicts) ∨
    (set.merge other = .unchanged ∧ ∀ filter ∈ other.filters, set.judge filter = .implied) ∨
    (set.merge other = .merged ((set.additions other).foldl add set) ∧ set.additions other ≠ [] ∧
      ∀ filter ∈ other.filters, set.judge filter = .narrows ∨ set.judge filter = .implied) := by
  by_cases conflict : other.filters.any fun filter => set.judge filter = .contradicts
  · obtain ⟨filter, member, verdict⟩ := List.any_eq_true.mp conflict
    exact Or.inl ⟨by simp [merge, conflict], filter, member, of_decide_eq_true verdict⟩
  · have settled : ∀ filter ∈ other.filters, set.judge filter = .narrows ∨ set.judge filter = .implied := by
      intro filter member
      cases verdict : set.judge filter with
      | narrows => exact Or.inl rfl
      | implied => exact Or.inr rfl
      | contradicts => exact absurd (List.any_eq_true.mpr ⟨filter, member, decide_eq_true verdict⟩) conflict
    -- what does not narrow the set is implied by it, so that the set stays as it is if nothing is added
    cases found : set.additions other with
    | nil =>
      have outcome : set.merge other = .unchanged := by
        rw [additions] at found
        rw [merge, if_neg conflict, found]
      refine Or.inr (Or.inl ⟨outcome, fun filter member => (settled filter member).resolve_left fun narrows => ?_⟩)
      have inside := mem_additions.mpr ⟨member, narrows⟩
      simp [found] at inside
    | cons head rest =>
      have outcome : set.merge other = .merged ((head :: rest).foldl add set) := by
        rw [additions] at found
        rw [merge, if_neg conflict, found]
      exact Or.inr (Or.inr ⟨outcome, by simp, settled⟩)

section
variable {set : FilterSet} (plain : set.PlainKeys) (sole : Sole set)
include plain sole

/-- Filters that stand beside each other, and beside what they do not shed, leave a set sole one after the other. -/
theorem foldl_add_sole {filters : List Filter} (own : ∀ filter ∈ filters, filter.PlainKey)
    (besides : ∀ filter ∈ filters, ∀ other ∈ set.filters, other.key = filter.key → filter.Definite → other.Definite →
      ¬ filter.Sheds other → filter.Beside other)
    (apart : filters.Pairwise fun a b => a.key = b.key → a.Definite → b.Definite → a.Beside b) :
    Sole (filters.foldl add set) := by
  induction filters generalizing set with
  | nil => exact sole
  | cons head rest ih =>
    have ownHead := own head List.mem_cons_self
    apply ih (add_plainKeys plain ownHead) (sole.add_beside plain ownHead (besides head List.mem_cons_self))
    · exact fun filter inRest => own filter (List.mem_cons_of_mem head inRest)
    · -- what a later filter meets is the entry for the head or was there before
      intro filter inRest other member sameKey definite theirs notShed
      rcases (mem_add plain ownHead).mp member with rfl | ⟨inside, -⟩
      · have headKey := entry_key.symm.trans sameKey
        have headDefinite := entry_definite.mp theirs
        exact (beside_entry ((List.pairwise_cons.mp apart).1 filter inRest headKey headDefinite definite)).symm
      · exact besides filter (List.mem_cons_of_mem head inRest) other inside sameKey definite theirs notShed
    · exact apart.of_cons

omit sole in
theorem merge_plainKeys {other result : FilterSet} (theirs : other.PlainKeys)
    (outcome : set.merge other = .merged result) : result.PlainKeys := by
  rcases merge_cases set other with ⟨same, -⟩ | ⟨same, -⟩ | ⟨same, -⟩
  · simp [same] at outcome
  · simp [same] at outcome
  · obtain rfl := Merge.merged.inj (same.symm.trans outcome)
    exact List.foldlRecOn _ _ plain fun set plain filter member =>
      add_plainKeys plain (theirs filter (mem_additions.mp member).1)

theorem merge_sole {other result : FilterSet} (theirs : other.PlainKeys) (otherSole : Sole other)
    (outcome : set.merge other = .merged result) : Sole result := by
  rcases merge_cases set other with ⟨same, -⟩ | ⟨same, -⟩ | ⟨same, -⟩
  · simp [same] at outcome
  · simp [same] at outcome
  · obtain rfl := Merge.merged.inj (same.symm.trans outcome)
    have own : ∀ filter ∈ set.additions other, filter.PlainKey :=
      fun filter member => theirs filter (mem_additions.mp member).1
    apply foldl_add_sole plain sole own
    · intro filter member existing isExisting sameKey definite existingDefinite notShed
      have free := judge_free plain (own filter member) (mem_additions.mp member).2
      exact Filter.beside_of_free existingDefinite definite (free existing isExisting sameKey) notShed
    · -- additions have different slots, so that any two of them are different filters of `other`, which is sole
      apply (additions_ordered set other).imp_of_mem
      intro a b aMember bMember below sameKey aDefinite bDefinite
      have differ : a ≠ b := fun same => String.lt_irrefl _ (same ▸ below)
      exact (otherSole a (mem_additions.mp aMember).1 b (mem_additions.mp bMember).1 sameKey aDefinite bDefinite).resolve_left
        differ

end

include one compares
variable {other : FilterSet} (theirs : other.Compares values)
include theirs

theorem merge_conflict (outcome : set.merge other = .conflict) {feature : Feature} (accepted : set.accepts feature) :
    ¬ other.accepts feature := by
  rcases merge_cases set other with ⟨-, filter, member, verdict⟩ | ⟨same, -⟩ | ⟨same, -⟩
  · exact fun onOther => judge_contradicts one compares (theirs filter member) verdict accepted (onOther filter member)
  · simp [same] at outcome
  · simp [same] at outcome

theorem merge_unchanged (outcome : set.merge other = .unchanged) {feature : Feature} (accepted : set.accepts feature) :
    other.accepts feature := by
  rcases merge_cases set other with ⟨same, -⟩ | ⟨-, implied⟩ | ⟨same, -⟩
  · simp [same] at outcome
  · exact fun filter member => judge_implied one compares (theirs filter member) (implied filter member) accepted
  · simp [same] at outcome

omit one in
theorem merge_compares {result : FilterSet} (outcome : set.merge other = .merged result) : result.Compares values := by
  rcases merge_cases set other with ⟨same, -⟩ | ⟨same, -⟩ | ⟨same, -⟩
  · simp [same] at outcome
  · simp [same] at outcome
  · obtain rfl := Merge.merged.inj (same.symm.trans outcome)
    exact List.foldlRecOn _ _ compares fun set compares filter member =>
      add_compares compares (theirs filter (mem_additions.mp member).1)

theorem additions_admitted (coherent : Coherent other) :
    (∀ filter ∈ set.additions other, filter.Compares values) ∧
    (∀ filter ∈ set.additions other, ∀ existing ∈ set.filters, existing.key = filter.key → existing.Admits filter) ∧
    (set.additions other).Pairwise fun a b => a.key = b.key → b.op ≠ .equal ∧ a.Admits b := by
  have own : ∀ filter ∈ set.additions other, filter.Compares values :=
    fun filter member => theirs filter (mem_additions.mp member).1
  refine ⟨own, fun filter member => judge_admits one compares (own filter member) (mem_additions.mp member).2, ?_⟩
  refine (additions_ordered set other).imp_of_mem fun {a b} aMember bMember below sameKey => ?_
  exact coherent.admits (mem_additions.mp aMember).1 (mem_additions.mp bMember).1
    (fun same => String.lt_irrefl _ (same ▸ below)) sameKey

theorem merge_merged (coherent : Coherent other) {merged : FilterSet} (outcome : set.merge other = .merged merged) :
    merged.Compares values ∧ ∀ feature, merged.accepts feature ↔ set.accepts feature ∧ other.accepts feature := by
  rcases merge_cases set other with ⟨same, -⟩ | ⟨same, -⟩ | ⟨same, -, settled⟩
  · simp [same] at outcome
  · simp [same] at outcome
  · obtain rfl := Merge.merged.inj (same.symm.trans outcome)
    obtain ⟨own, admitted, apart⟩ := additions_admitted one compares theirs coherent
    obtain ⟨mergedCompares, meaning⟩ := foldl_add one compares own admitted apart
    refine ⟨mergedCompares, fun feature => (meaning feature).trans (and_congr_right fun accepted => ?_)⟩
    constructor
    · intro onAdditions filter member
      rcases settled filter member with narrows | implied
      · exact onAdditions filter (mem_additions.mpr ⟨member, narrows⟩)
      · exact judge_implied one compares (theirs filter member) implied accepted
    · exact fun onOther filter member => onOther filter (mem_additions.mp member).1

end FilterSet
end MapStyle
