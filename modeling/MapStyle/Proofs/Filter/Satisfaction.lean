import Mathlib.Data.EReal.Operations
import Mathlib.Data.Set.Finite.Lemmas
import Mathlib.Data.Set.Finite.List
import Mathlib.Order.Interval.Set.Infinite
import MapStyle.Proofs.Filter.Conjunction
/-!
Satisfiable filters. Finitely many comparisons with finite numbers are satisfied by real numbers unless two of them
oppose each other or two inclusive bounds meet at an excluded value. A set that is formed of filters opposes no two of
its filters but bounds that meet, so that these alone tell whether it can be satisfied.
-/
namespace MapStyle

theorem exists_real_between {low high : EReal} (below : low < high) {avoided : Set EReal} (finite : avoided.Finite) :
    ∃ x : ℝ, low < x ∧ x < high ∧ (x : EReal) ∉ avoided := by
  obtain ⟨a, lowA, aHigh⟩ := EReal.lt_iff_exists_real_btwn.mp below
  obtain ⟨b, aB, bHigh⟩ := EReal.lt_iff_exists_real_btwn.mp aHigh
  have infinite : (Set.Ioo a b).Infinite := Set.Ioo_infinite (EReal.coe_lt_coe_iff.mp aB)
  have finiteReals : {x : ℝ | (x : EReal) ∈ avoided}.Finite := finite.preimage EReal.coe_injective.injOn
  obtain ⟨x, ⟨aX, xB⟩, free⟩ := infinite.exists_notMem_finite finiteReals
  exact ⟨x, lowA.trans (EReal.coe_lt_coe_iff.mpr aX), (EReal.coe_lt_coe_iff.mpr xB).trans bHigh, free⟩

/-- Texts of finite numbers, one text for each number. -/
structure FiniteText (values : Set String) : Prop extends OneText values where
  isFinite : ∀ text ∈ values, ∃ negative steps, Number.read? (Text.trim text) = some (.finite negative steps)

namespace Filter

/-- Some real numbers satisfy all filters. -/
def Satisfiable (filters : List Filter) : Prop :=
  ∃ numbers : String → ℝ, ∀ filter ∈ filters, filter.accepts fun key => numbers key

/-- Bounds of a key meet, and one of them is strict or the value is excluded. -/
def Pinched (filters : List Filter) : Prop :=
  ∃ low ∈ filters, ∃ high ∈ filters, low.isLower ∧ high.isUpper ∧ high.key = low.key ∧ high.bound = low.bound ∧
    (low.op = .greater ∨ high.op = .less ∨
      ∃ excluded ∈ filters, excluded.key = low.key ∧ excluded.op = .different ∧ excluded.bound = low.bound)

theorem Opposes.symm {a b : Filter} (opposes : a.Opposes b) : b.Opposes a := by
  revert opposes
  cases aOp : a.op <;> cases bOp : b.op <;> simp [Opposes, Comparison.holds, aOp, bOp, eq_comm]

theorem exists_low (filters : List Filter) : ∃ low : EReal, (∀ filter ∈ filters, filter.isLower → filter.bound ≤ low) ∧
    (low = ⊥ ∨ ∃ filter ∈ filters, filter.isLower ∧ filter.bound = low) := by
  have finite : {filter | filter ∈ filters ∧ filter.isLower}.Finite :=
    (List.finite_toSet filters).subset fun _ member => member.1
  rcases Set.eq_empty_or_nonempty {filter | filter ∈ filters ∧ filter.isLower} with unbounded | bounded
  · exact ⟨⊥, fun filter member lower => absurd ⟨member, lower⟩ (Set.eq_empty_iff_forall_notMem.mp unbounded filter), Or.inl rfl⟩
  · obtain ⟨filter, ⟨member, lower⟩, last⟩ := Set.exists_max_image _ bound finite bounded
    exact ⟨filter.bound, fun other inside otherLower => last other ⟨inside, otherLower⟩, Or.inr ⟨filter, member, lower, rfl⟩⟩

theorem exists_high (filters : List Filter) : ∃ high : EReal, (∀ filter ∈ filters, filter.isUpper → high ≤ filter.bound) ∧
    (high = ⊤ ∨ ∃ filter ∈ filters, filter.isUpper ∧ filter.bound = high) := by
  have finite : {filter | filter ∈ filters ∧ filter.isUpper}.Finite :=
    (List.finite_toSet filters).subset fun _ member => member.1
  rcases Set.eq_empty_or_nonempty {filter | filter ∈ filters ∧ filter.isUpper} with unbounded | bounded
  · exact ⟨⊤, fun filter member upper => absurd ⟨member, upper⟩ (Set.eq_empty_iff_forall_notMem.mp unbounded filter), Or.inl rfl⟩
  · obtain ⟨filter, ⟨member, upper⟩, first⟩ := Set.exists_min_image _ bound finite bounded
    exact ⟨filter.bound, fun other inside otherUpper => first other ⟨inside, otherUpper⟩, Or.inr ⟨filter, member, upper, rfl⟩⟩

theorem room_of_apart {low high : Filter} (lower : low.isLower) (upper : high.isUpper) (apart : ¬ low.Opposes high) :
    low.bound < high.bound ∨ (low.bound = high.bound ∧ low.op = .atLeast ∧ high.op = .atMost) := by
  revert lower upper apart
  cases lowOp : low.op <;> cases highOp : high.op <;> simp [Opposes, isLower, isUpper, lowOp, highOp]
  exact lt_or_eq_of_le

section
variable {filters : List Filter} (notPattern : ∀ filter ∈ filters, isPattern filter.op = false)
  (apart : ∀ a ∈ filters, ∀ b ∈ filters, ¬ a.Opposes b)
include notPattern apart

theorem holds_of_equality {equality : Filter} (member : equality ∈ filters) (isEqual : equality.op = .equal) :
    ∀ filter ∈ filters, filter.op.holds equality.bound filter.bound := by
  intro filter inside
  have together := apart equality member filter inside
  have pattern := notPattern filter inside
  revert together pattern
  cases op : filter.op <;> simp [Opposes, Comparison.holds, isPattern, isEqual, op, eq_comm]

variable (noEquality : ∀ filter ∈ filters, filter.op ≠ .equal) {low high : EReal}
  (isLow : ∀ filter ∈ filters, filter.isLower → filter.bound ≤ low)
  (isHigh : ∀ filter ∈ filters, filter.isUpper → high ≤ filter.bound)
include noEquality isLow isHigh

omit apart in
theorem holds_of_between {x : ℝ} (above : low < x) (below : x < high) (free : (x : EReal) ∉ bound '' {filter | filter ∈ filters}) :
    ∀ filter ∈ filters, filter.op.holds x filter.bound := by
  intro filter member
  have lower := isLow filter member
  have upper := isHigh filter member
  have differs : (x : EReal) ≠ filter.bound := fun same => free ⟨filter, member, same.symm⟩
  have notEqual := noEquality filter member
  have pattern := notPattern filter member
  revert lower upper notEqual pattern
  cases op : filter.op <;> simp [Comparison.holds, isLower, isUpper, isPattern, op]
  · exact differs
  · exact fun atLow => atLow.trans_lt above
  · exact fun atLow => (atLow.trans_lt above).le
  · exact fun atHigh => below.trans_le atHigh
  · exact fun atHigh => (below.trans_le atHigh).le

end

theorem exists_solution {filters : List Filter} (notPattern : ∀ filter ∈ filters, isPattern filter.op = false)
    (isReal : ∀ filter ∈ filters, ∃ x : ℝ, filter.bound = x) (apart : ∀ a ∈ filters, ∀ b ∈ filters, ¬ a.Opposes b)
    (unpinched : ∀ low ∈ filters, ∀ high ∈ filters, low.isLower → high.isUpper → high.bound = low.bound →
      ∀ excluded ∈ filters, excluded.op = .different → excluded.bound ≠ low.bound) :
    ∃ x : ℝ, ∀ filter ∈ filters, filter.op.holds x filter.bound := by
  by_cases equality : ∃ filter ∈ filters, filter.op = .equal
  · obtain ⟨equal, member, isEqual⟩ := equality
    obtain ⟨x, atX⟩ := isReal equal member
    exact ⟨x, atX ▸ holds_of_equality notPattern apart member isEqual⟩
  have noEquality : ∀ filter ∈ filters, filter.op ≠ .equal := fun filter member isEqual => equality ⟨filter, member, isEqual⟩
  obtain ⟨low, isLow, lowAt⟩ := exists_low filters
  obtain ⟨high, isHigh, highAt⟩ := exists_high filters
  by_cases below : low < high
  · obtain ⟨x, above, under, free⟩ := exists_real_between below ((List.finite_toSet filters).image bound)
    exact ⟨x, holds_of_between notPattern noEquality isLow isHigh above under free⟩
  -- the bounds meet, and where they meet every filter holds
  rcases lowAt with rfl | ⟨lowest, lowMember, lower, rfl⟩
  · obtain rfl := bot_le.eq_or_lt.resolve_right below
    rcases highAt with isTop | ⟨highest, highMember, -, atHigh⟩
    · exact absurd isTop bot_ne_top
    · obtain ⟨x, atX⟩ := isReal highest highMember
      exact absurd (atX.symm.trans atHigh) (EReal.coe_ne_bot x)
  rcases highAt with rfl | ⟨highest, highMember, upper, rfl⟩
  · obtain ⟨x, atX⟩ := isReal lowest lowMember
    exact absurd (atX ▸ EReal.coe_lt_top x) below
  obtain ⟨x, atX⟩ := isReal lowest lowMember
  have meets : lowest.bound = highest.bound :=
    ((room_of_apart lower upper (apart _ lowMember _ highMember)).resolve_left below).1
  refine ⟨x, fun filter member => ?_⟩
  rw [← atX]
  have free := unpinched lowest lowMember highest highMember lower upper meets.symm filter member
  have lowRoom := fun isLower => room_of_apart isLower upper (apart filter member highest highMember)
  have highRoom := fun isUpper => room_of_apart lower isUpper (apart lowest lowMember filter member)
  have atLow := isLow filter member
  have atHigh := isHigh filter member
  have notEqual := noEquality filter member
  have pattern := notPattern filter member
  revert free lowRoom highRoom atLow atHigh notEqual pattern
  cases op : filter.op <;> simp [Comparison.holds, isLower, isUpper, isPattern, op, meets]
  · exact fun differs same => differs same.symm
  · exact fun below _ => below
  · exact fun below _ => below

/-- Two bounds include a value, and it is excluded. -/
def ClampsExcluded (filters : List Filter) : Prop :=
  ∃ low ∈ filters, ∃ high ∈ filters, ∃ excluded ∈ filters, low.op = .atLeast ∧ high.op = .atMost ∧
    excluded.op = .different ∧ high.key = low.key ∧ excluded.key = low.key ∧ high.value = low.value ∧
    excluded.value = low.value

theorem Pinched.not_accepted {filters : List Filter} (measures : ∀ filter ∈ filters, filter.Measures)
    (pinched : Pinched filters) (feature : Feature) : ¬ ∀ filter ∈ filters, filter.accepts feature := by
  intro accepted
  have holds : ∀ filter ∈ filters, filter.op.holds (feature filter.key) filter.bound := fun filter member =>
    ((measures filter member).isNumber.accepts_iff feature).mp (accepted filter member)
  obtain ⟨low, lowMember, high, highMember, lower, upper, sameKey, meets, strict⟩ := pinched
  have atLow := holds low lowMember
  have atHigh := holds high highMember
  rw [sameKey, meets] at atHigh
  have excluded : ∀ excluded ∈ filters, excluded.key = low.key → excluded.op = .different →
      excluded.bound = low.bound → feature low.key ≠ low.bound := by
    intro excluded member onKey isExclusion same
    have atExcluded := holds excluded member
    rwa [onKey, isExclusion, same] at atExcluded
  revert atLow atHigh lower upper
  cases lowOp : low.op <;> cases highOp : high.op <;> simp [isLower, isUpper, Comparison.holds, lowOp, highOp]
  · exact le_of_lt
  · intro atLow
    have excludes := (strict.resolve_left (by simp [lowOp])).resolve_left (by simp [highOp])
    obtain ⟨other, member, onKey, isExclusion, same⟩ := excludes
    exact lt_of_le_of_ne atLow (excluded other member onKey isExclusion same).symm

/-- A filter of the list, or one of its inclusive bounds made strict because another one excludes its value. -/
def Stems (filters : List Filter) (filter : Filter) : Prop :=
  filter ∈ filters ∨ ∃ inclusive ∈ filters, ∃ excluded ∈ filters,
    ((inclusive.op = .atLeast ∧ filter = { inclusive with op := .greater }) ∨
      (inclusive.op = .atMost ∧ filter = { inclusive with op := .less })) ∧
    excluded.key = inclusive.key ∧ excluded.op = .different ∧ excluded.value = inclusive.value

theorem Stems.mem {filters : List Filter} {filter : Filter} (stems : Stems filters filter)
    (notStrict : filter.op ≠ .greater ∧ filter.op ≠ .less) : filter ∈ filters := by
  rcases stems with member | ⟨inclusive, -, excluded, -, ⟨-, rfl⟩ | ⟨-, rfl⟩, -⟩
  · exact member
  · exact absurd rfl notStrict.1
  · exact absurd rfl notStrict.2

theorem ClampsExcluded.mono {filters more : List Filter} (clamps : ClampsExcluded filters) (sub : filters ⊆ more) :
    ClampsExcluded more := by
  obtain ⟨low, lowMember, high, highMember, excluded, excludedMember, apart⟩ := clamps
  exact ⟨low, sub lowMember, high, sub highMember, excluded, sub excludedMember, apart⟩

theorem Pinched.mono {filters more : List Filter} (pinched : Pinched filters) (sub : filters ⊆ more) : Pinched more := by
  obtain ⟨low, lowMember, high, highMember, lower, upper, sameKey, meets, strict⟩ := pinched
  refine ⟨low, sub lowMember, high, sub highMember, lower, upper, sameKey, meets, ?_⟩
  rcases strict with strict | strict | ⟨excluded, member, excludes⟩
  · exact Or.inl strict
  · exact Or.inr (Or.inl strict)
  · exact Or.inr (Or.inr ⟨excluded, sub member, excludes⟩)

theorem Stems.mono {filters more : List Filter} {filter : Filter} (stems : Stems filters filter) (sub : filters ⊆ more) :
    Stems more filter := by
  rcases stems with member | ⟨inclusive, member, excluded, excludedMember, apart⟩
  · exact Or.inl (sub member)
  · exact Or.inr ⟨inclusive, sub member, excluded, sub excludedMember, apart⟩

theorem Pinched.clamps {values : Set String} (one : OneText values) {filters held : List Filter}
    (compares : ∀ filter ∈ held, filter.Compares values) (stems : ∀ filter ∈ held, Stems filters filter)
    (pinched : Pinched held) (room : ∀ low ∈ held, ∀ high ∈ held, low.isLower → high.isUpper → high.key = low.key →
      high.bound = low.bound → low.op = .atLeast ∧ high.op = .atMost) : ClampsExcluded filters := by
  obtain ⟨low, lowMember, high, highMember, lower, upper, sameKey, meets, strict⟩ := pinched
  obtain ⟨isAtLeast, isAtMost⟩ := room low lowMember high highMember lower upper sameKey meets
  have excludes := (strict.resolve_left (by simp [isAtLeast])).resolve_left (by simp [isAtMost])
  obtain ⟨excluded, member, onKey, isExclusion, same⟩ := excludes
  have highValue := ((compares high highMember).value_eq_iff one (compares low lowMember)).mpr meets
  have excludedValue := ((compares excluded member).value_eq_iff one (compares low lowMember)).mpr same
  exact ⟨low, (stems low lowMember).mem (by simp [isAtLeast]), high, (stems high highMember).mem (by simp [isAtMost]),
    excluded, (stems excluded member).mem (by simp [isExclusion]), isAtLeast, isAtMost, isExclusion, sameKey, onKey,
    highValue, excludedValue⟩

theorem Opposes.across {a b : Filter} (opposes : a.Opposes b) (notEqual : a.op ≠ .equal ∧ b.op ≠ .equal) :
    (a.isLower ∧ b.isUpper) ∨ (a.isUpper ∧ b.isLower) := by
  revert opposes notEqual
  cases aOp : a.op <;> cases bOp : b.op <;> simp [Opposes, isLower, isUpper, aOp, bOp]

section
variable {values : Set String} (finite : FiniteText values) {filters : List Filter}
  (own : ∀ filter ∈ filters, filter.Compares values)
include finite own

theorem satisfiable_iff_holds : Satisfiable filters ↔
    ∃ numbers : String → ℝ, ∀ filter ∈ filters, filter.op.holds (numbers filter.key) filter.bound := by
  apply exists_congr
  intro numbers
  exact forall₂_congr fun filter member => (own filter member).accepts_iff finite.toOneText _

theorem Pinched.not_satisfiable (pinched : Pinched filters) : ¬ Satisfiable filters := by
  rintro ⟨numbers, accepted⟩
  exact pinched.not_accepted (fun filter member => (own filter member).measures finite.toOneText) _ accepted

theorem Satisfiable.apart (satisfiable : Satisfiable filters) :
    ∀ a ∈ filters, ∀ b ∈ filters, a.key = b.key → ¬ a.Opposes b := by
  intro a aMember b bMember sameKey opposes
  obtain ⟨numbers, holds⟩ := (satisfiable_iff_holds finite own).mp satisfiable
  have onA := holds a aMember
  rw [sameKey] at onA
  exact opposes.sound onA (holds b bMember)

theorem satisfiable_of_apart (apart : ∀ a ∈ filters, ∀ b ∈ filters, a.key = b.key → ¬ a.Opposes b)
    (unpinched : ¬ Pinched filters) : Satisfiable filters := by
  rw [satisfiable_iff_holds finite own]
  have solution : ∀ key, ∃ x : ℝ, ∀ filter ∈ filters.filter fun filter => filter.key = key, filter.op.holds x filter.bound := by
    intro key
    apply exists_solution
    · exact fun filter member => (own filter (List.mem_of_mem_filter member)).notPattern
    · intro filter member
      obtain ⟨negative, steps, reads⟩ := finite.isFinite _ (own filter (List.mem_of_mem_filter member)).value
      exact ⟨_, bound_of_numeric reads⟩
    · intro a aMember b bMember
      simp only [List.mem_filter, decide_eq_true_eq] at aMember bMember
      exact apart a aMember.1 b bMember.1 (aMember.2.trans bMember.2.symm)
    · intro low lowMember high highMember lower upper meets excluded member isExclusion same
      simp only [List.mem_filter, decide_eq_true_eq] at lowMember highMember member
      exact unpinched ⟨low, lowMember.1, high, highMember.1, lower, upper, highMember.2.trans lowMember.2.symm, meets,
        Or.inr (Or.inr ⟨excluded, member.1, member.2.trans lowMember.2.symm, isExclusion, same⟩)⟩
  choose numbers holds using solution
  exact ⟨numbers, fun filter member => holds filter.key filter (List.mem_filter.mpr ⟨member, by simp⟩)⟩

end
end Filter

namespace FilterSet

theorem Coherent.apart {set : FilterSet} (coherent : Coherent set) :
    ∀ a ∈ set.filters, ∀ b ∈ set.filters, a.key = b.key → ¬ a.Opposes b := by
  have across : ∀ a ∈ set.filters, ∀ b ∈ set.filters, a.key = b.key → a.isLower → b.isUpper → ¬ a.Opposes b := by
    intro a aMember b bMember sameKey lower upper
    have room := coherent.room a aMember lower b bMember upper sameKey.symm
    revert lower upper room
    cases aOp : a.op <;> cases bOp : b.op <;> simp [Filter.Opposes, Filter.isLower, Filter.isUpper, aOp, bOp]
    exact fun room => room.elim le_of_lt le_of_eq
  intro a aMember b bMember sameKey opposes
  by_cases same : a = b
  · subst same
    cases op : a.op <;> simp [Filter.Opposes, Comparison.holds, op] at opposes
  · have beside := coherent.toSingle.beside aMember bMember same sameKey
    rcases opposes.across ⟨beside.notEqual, beside.otherNotEqual⟩ with ⟨lower, upper⟩ | ⟨upper, lower⟩
    · exact across a aMember b bMember sameKey lower upper opposes
    · exact across b bMember a aMember sameKey.symm lower upper opposes.symm

theorem coherent_of_unpinched {set : FilterSet} (single : Single set) (ranged : Ranged set)
    (unpinched : ¬ Filter.Pinched set.filters) : Coherent set where
  toSingle := single
  room := by
    intro a aMember lower b bMember upper sameKey
    rcases lt_or_eq_of_le (ranged a aMember lower b bMember upper sameKey) with below | meets
    · exact Or.inl below
    · have free := fun strict => unpinched ⟨a, aMember, b, bMember, lower, upper, sameKey, meets.symm, strict⟩
      have inclusive : a.op ≠ .greater ∧ b.op ≠ .less :=
        ⟨fun strict => free (Or.inl strict), fun strict => free (Or.inr (Or.inl strict))⟩
      revert lower upper inclusive
      cases aOp : a.op <;> cases bOp : b.op <;> simp [Filter.isLower, Filter.isUpper, aOp, bOp, meets]

variable {values : Set String} (finite : FiniteText values) {set : FilterSet} (compares : set.Compares values)
include finite compares

/-- Of two filters of a set that bounds no value from both sides in vain, only bounds that meet oppose each other. -/
theorem satisfiable_iff (single : Single set) (ranged : Ranged set) :
    Filter.Satisfiable set.filters ↔ ¬ Filter.Pinched set.filters := by
  constructor
  · exact fun satisfiable pinched => pinched.not_satisfiable finite compares satisfiable
  · intro unpinched
    exact Filter.satisfiable_of_apart finite compares (coherent_of_unpinched single ranged unpinched).apart unpinched

omit finite compares

theorem stems_add {filters : List Filter} (plain : set.PlainKeys) {filter : Filter} (own : filter.PlainKey)
    (isFilter : filter ∈ filters) (stems : ∀ other ∈ set.filters, Filter.Stems filters other) :
    ∀ other ∈ (set.add filter).filters, Filter.Stems filters other := by
  intro other member
  rcases (mem_add plain own).mp member with rfl | ⟨inside, -⟩
  · rcases entry_cases plain own with ⟨same, -⟩ |
      ⟨op, same, strict, excluded, excludedMember, sameKey, isExclusion, sameValue⟩
    · rw [same]
      exact Or.inl isFilter
    · have excludedListed : excluded ∈ filters := (stems excluded excludedMember).mem (by simp [isExclusion])
      refine Or.inr ⟨filter, isFilter, excluded, excludedListed, ?_, sameKey, isExclusion, sameValue⟩
      rcases strict with ⟨isAtLeast, rfl⟩ | ⟨isAtMost, rfl⟩
      · exact Or.inl ⟨isAtLeast, same⟩
      · exact Or.inr ⟨isAtMost, same⟩
  · exact stems other inside

theorem formed_stems {filters : List Filter} (plain : ∀ filter ∈ filters, filter.PlainKey)
    (formed : ofFilters? filters = some set) : ∀ filter ∈ set.filters, Filter.Stems filters filter := by
  have both : set.PlainKeys ∧ ∀ filter ∈ set.filters, Filter.Stems filters filter := by
    apply foldlM_conjoin_induct _ (by simp [PlainKeys, empty]) formed
    rintro set ⟨plainSet, stems⟩ filter member -
    exact ⟨add_plainKeys plainSet (plain filter member), stems_add plainSet (plain filter member) member stems⟩
  exact both.2

section
variable (one : OneText values) {filters : List Filter} (own : ∀ filter ∈ filters, filter.Compares values)
  (formed : ofFilters? filters = some set)
include one own formed

theorem formed_accepts : set.Compares values ∧ Single set ∧
    ∀ feature, set.accepts feature ↔ ∀ filter ∈ filters, filter.accepts feature := by
  obtain ⟨compares, single, meaning⟩ := foldlM_conjoin_some one (by simp [Compares, empty]) own formed
  exact ⟨compares, single single_empty, fun feature => (meaning feature).trans (by simp [accepts, empty])⟩

theorem formed_ranged : Ranged set := by
  have both : set.Measures ∧ Ranged set := by
    apply foldlM_conjoin_induct _ ⟨by simp [Measures, empty], ranged_empty⟩ formed
    rintro set ⟨measures, ranged⟩ filter member verdict
    have ownMeasures := (own filter member).measures one
    exact ⟨add_measures measures ownMeasures, ranged.add measures ownMeasures verdict⟩
  exact both.2

theorem formed_coherent (free : ¬ Filter.ClampsExcluded filters) : Coherent set := by
  have both : set.Compares values ∧ (∀ filter ∈ set.filters, Filter.Stems filters filter) ∧ Coherent set := by
    apply foldlM_conjoin_induct _ ⟨by simp [Compares, empty], by simp [empty], coherent_empty⟩ formed
    rintro set ⟨compares, stems, coherent⟩ filter member verdict
    have ownFilter := own filter member
    have stemsAfter := stems_add compares.plainKeys ownFilter.plainKey member stems
    refine ⟨add_compares compares ownFilter, stemsAfter, coherent.add one compares ownFilter verdict ?_⟩
    -- bounds that meet without opposing each other are both inclusive, and stem from the filters as they are
    intro b inside sameKey across meets c cInside cKey isExclusion cMeets
    have exclusionListed := (stems c cInside).mem (by simp [isExclusion])
    have apart := (judge_narrows one compares ownFilter verdict b inside sameKey).1
    have sameValue := ((compares b inside).value_eq_iff one ownFilter).mpr meets
    have cValue := ((compares c cInside).value_eq_iff one ownFilter).mpr cMeets
    rcases across with ⟨lower, upper⟩ | ⟨upper, lower⟩
    · have room := Filter.room_of_apart lower upper fun opposes => apart opposes.symm
      obtain ⟨-, isAtLeast, isAtMost⟩ := room.resolve_left (by simp [meets])
      have listed := (stems b inside).mem (by simp [isAtMost])
      exact free ⟨filter, member, b, listed, c, exclusionListed, isAtLeast, isAtMost, isExclusion, sameKey, cKey,
        sameValue, cValue⟩
    · have room := Filter.room_of_apart lower upper apart
      obtain ⟨-, isAtLeast, isAtMost⟩ := room.resolve_left (by simp [meets])
      have listed := (stems b inside).mem (by simp [isAtLeast])
      exact free ⟨b, listed, filter, member, c, exclusionListed, isAtLeast, isAtMost, isExclusion, sameKey.symm,
        cKey.trans sameKey.symm, sameValue.symm, cValue.trans sameValue.symm⟩
  exact both.2.2

theorem clamps_of_formed (pinched : Filter.Pinched set.filters) : Filter.ClampsExcluded filters := by
  by_contra free
  have coherent := formed_coherent one own formed free
  have stems := formed_stems (fun filter member => (own filter member).plainKey) formed
  apply free
  apply pinched.clamps one (formed_accepts one own formed).1 stems
  intro low lowMember high highMember lower upper sameKey meets
  exact ((coherent.room low lowMember lower high highMember upper sameKey).resolve_left (by simp [meets])).2

end

theorem merge_conflict_of {incoming : FilterSet} {filter : Filter} (member : filter ∈ incoming.filters)
    (verdict : set.judge filter = .contradicts) : set.merge incoming = .conflict := by
  rcases merge_cases set incoming with ⟨same, -⟩ | ⟨-, implied⟩ | ⟨-, -, settled⟩
  · exact same
  · simp [implied filter member] at verdict
  · rcases settled filter member with narrows | implied
    · simp [narrows] at verdict
    · simp [implied] at verdict

section
include finite compares
variable {other : FilterSet} (theirs : other.Compares values) (single : Single set) (ranged : Ranged set)
include theirs single ranged

theorem apart_of_merge (noConflict : set.merge other ≠ .conflict) (unpinched : ¬ Filter.Pinched set.filters) :
    ∀ a ∈ set.filters, ∀ b ∈ other.filters, a.key = b.key → ¬ a.Opposes b := by
  intro a aMember b bMember sameKey opposes
  have one := finite.toOneText
  cases verdict : set.judge b with
  | contradicts => exact noConflict (merge_conflict_of bMember verdict)
  | narrows => exact (judge_narrows one compares (theirs b bMember) verdict a aMember sameKey).1 opposes
  | implied =>
    -- what implies `b` is in the same set as `a`, and both cannot hold
    obtain ⟨numbers, accepted⟩ := (satisfiable_iff finite compares single ranged).mpr unpinched
    have onB := (theirs b bMember).accepts_iff one _ |>.mp (judge_implied one compares (theirs b bMember) verdict accepted)
    have onA := ((compares a aMember).accepts_iff one _).mp (accepted a aMember)
    rw [sameKey] at onA
    exact opposes.sound onA onB

end

section
variable {filters incoming : List Filter} {other : FilterSet} (own : ∀ filter ∈ filters ++ incoming, filter.Compares values)
  (formed : ofFilters? filters = some set) (otherFormed : ofFilters? incoming = some other)
include finite own formed otherFormed

theorem conflict_or_pinched (unsatisfiable : ¬ Filter.Satisfiable (set.filters ++ other.filters)) :
    set.merge other = .conflict ∨ Filter.Pinched (set.filters ++ other.filters) := by
  have one := finite.toOneText
  obtain ⟨ownLeft, ownRight⟩ := List.forall_mem_append.mp own
  obtain ⟨compares, single, -⟩ := formed_accepts one ownLeft formed
  obtain ⟨theirs, otherSingle, -⟩ := formed_accepts one ownRight otherFormed
  have ranged := formed_ranged one ownLeft formed
  have otherRanged := formed_ranged one ownRight otherFormed
  by_contra neither
  obtain ⟨noConflict, unpinched⟩ := not_or.mp neither
  have left : ¬ Filter.Pinched set.filters := fun pinched => unpinched (pinched.mono (List.subset_append_left _ _))
  have right : ¬ Filter.Pinched other.filters := fun pinched => unpinched (pinched.mono (List.subset_append_right _ _))
  have setApart := ((satisfiable_iff finite compares single ranged).mpr left).apart finite compares
  have otherApart := ((satisfiable_iff finite theirs otherSingle otherRanged).mpr right).apart finite theirs
  have across := apart_of_merge finite compares theirs single ranged noConflict left
  apply unsatisfiable
  apply Filter.satisfiable_of_apart finite (List.forall_mem_append.mpr ⟨compares, theirs⟩) _ unpinched
  intro a aMember b bMember sameKey
  rcases List.mem_append.mp aMember with aInside | aInside <;> rcases List.mem_append.mp bMember with bInside | bInside
  · exact setApart a aInside b bInside sameKey
  · exact across a aInside b bInside sameKey
  · exact fun opposes => across b bInside a aInside sameKey.symm opposes.symm
  · exact otherApart a aInside b bInside sameKey

/-- Bounds that meet in two sets without a conflict clamp a value that one of their filters excludes. -/
theorem clamps_of_pinched (pinched : Filter.Pinched (set.filters ++ other.filters)) :
    set.merge other = .conflict ∨ Filter.ClampsExcluded (filters ++ incoming) := by
  have one := finite.toOneText
  obtain ⟨ownLeft, ownRight⟩ := List.forall_mem_append.mp own
  obtain ⟨compares, single, -⟩ := formed_accepts one ownLeft formed
  obtain ⟨theirs, otherSingle, -⟩ := formed_accepts one ownRight otherFormed
  have ranged := formed_ranged one ownLeft formed
  by_contra neither
  obtain ⟨noConflict, free⟩ := not_or.mp neither
  have freeLeft : ¬ Filter.ClampsExcluded filters := fun clamps => free (clamps.mono (List.subset_append_left _ _))
  have freeRight : ¬ Filter.ClampsExcluded incoming := fun clamps => free (clamps.mono (List.subset_append_right _ _))
  have coherent := formed_coherent one ownLeft formed freeLeft
  have otherCoherent := formed_coherent one ownRight otherFormed freeRight
  have unpinched : ¬ Filter.Pinched set.filters := fun pinched => freeLeft (clamps_of_formed one ownLeft formed pinched)
  have across := apart_of_merge finite compares theirs single ranged noConflict unpinched
  have stems : ∀ filter ∈ set.filters ++ other.filters, Filter.Stems (filters ++ incoming) filter := by
    have plainLeft := fun filter member => (ownLeft filter member).plainKey
    have plainRight := fun filter member => (ownRight filter member).plainKey
    rw [List.forall_mem_append]
    exact ⟨fun filter member => (formed_stems plainLeft formed filter member).mono (List.subset_append_left _ _),
      fun filter member => (formed_stems plainRight otherFormed filter member).mono (List.subset_append_right _ _)⟩
  apply free
  apply pinched.clamps one (List.forall_mem_append.mpr ⟨compares, theirs⟩) stems
  intro low lowMember high highMember lower upper sameKey meets
  have room : low.bound < high.bound ∨ (low.bound = high.bound ∧ low.op = .atLeast ∧ high.op = .atMost) := by
    rcases List.mem_append.mp lowMember with lowInside | lowInside <;>
      rcases List.mem_append.mp highMember with highInside | highInside
    · exact coherent.room low lowInside lower high highInside upper sameKey
    · exact Filter.room_of_apart lower upper (across low lowInside high highInside sameKey.symm)
    · exact Filter.room_of_apart lower upper fun opposes => across high highInside low lowInside sameKey opposes.symm
    · exact otherCoherent.room low lowInside lower high highInside upper sameKey
  exact (room.resolve_left (by simp [meets])).2

end

include finite in
theorem not_satisfiable_iff_formed {filters : List Filter} (own : ∀ filter ∈ filters, filter.Compares values) :
    ¬ Filter.Satisfiable filters ↔
      ofFilters? filters = none ∨ ∃ set, ofFilters? filters = some set ∧ Filter.Pinched set.filters := by
  have one := finite.toOneText
  cases formed : ofFilters? filters with
  | none =>
    simp only [true_or, iff_true]
    rintro ⟨numbers, accepted⟩
    exact foldlM_conjoin_none one (by simp [Compares, empty]) own formed (by simp [accepts, empty]) accepted
  | some set =>
    obtain ⟨compares, single, meaning⟩ := formed_accepts one own formed
    have sameSolutions : Filter.Satisfiable filters ↔ Filter.Satisfiable set.filters :=
      exists_congr fun numbers => (meaning _).symm
    rw [sameSolutions, satisfiable_iff finite compares single (formed_ranged one own formed), not_not]
    simp

include finite in
theorem formed_none_iff {filters : List Filter} (own : ∀ filter ∈ filters, filter.Compares values)
    (free : ¬ Filter.ClampsExcluded filters) : ofFilters? filters = none ↔ ¬ Filter.Satisfiable filters := by
  rw [not_satisfiable_iff_formed finite own]
  refine ⟨Or.inl, fun outcome => outcome.resolve_right ?_⟩
  rintro ⟨set, formed, pinched⟩
  exact free (clamps_of_formed finite.toOneText own formed pinched)

/-- Filters that no real numbers satisfy form no set, or one that stores bounds which meet in vain, and that only where
the filters clamp a value that one of them excludes. Sets that nothing satisfies together are in conflict, or their
bounds meet so. -/
theorem unsatisfiable_iff (finite : FiniteText values) :
    (∀ filters : List Filter, (∀ filter ∈ filters, filter.Compares values) →
      (¬ Filter.Satisfiable filters ↔
        ofFilters? filters = none ∨ ∃ set, ofFilters? filters = some set ∧ Filter.Pinched set.filters) ∧
      ∀ set, ofFilters? filters = some set → Filter.Pinched set.filters → Filter.ClampsExcluded filters) ∧
    ∀ filters incoming : List Filter, (∀ filter ∈ filters ++ incoming, filter.Compares values) →
      ∀ set other, ofFilters? filters = some set → ofFilters? incoming = some other →
      (¬ Filter.Satisfiable (set.filters ++ other.filters) ↔
        set.merge other = .conflict ∨ Filter.Pinched (set.filters ++ other.filters)) ∧
      (Filter.Pinched (set.filters ++ other.filters) →
        set.merge other = .conflict ∨ Filter.ClampsExcluded (filters ++ incoming)) := by
  have one := finite.toOneText
  constructor
  · intro filters own
    exact ⟨not_satisfiable_iff_formed finite own, fun set formed => clamps_of_formed one own formed⟩
  · intro filters incoming own set other formed otherFormed
    refine ⟨⟨conflict_or_pinched finite own formed otherFormed, ?_⟩, clamps_of_pinched finite own formed otherFormed⟩
    obtain ⟨ownLeft, ownRight⟩ := List.forall_mem_append.mp own
    have compares := (formed_accepts one ownLeft formed).1
    have theirs := (formed_accepts one ownRight otherFormed).1
    rintro (conflict | pinched)
    · rintro ⟨numbers, accepted⟩
      obtain ⟨onSet, onOther⟩ := List.forall_mem_append.mp accepted
      exact merge_conflict one compares theirs conflict onSet onOther
    · exact pinched.not_satisfiable finite (List.forall_mem_append.mpr ⟨compares, theirs⟩)

theorem finiteText_lanes : FiniteText {"2", "6"} where
  toOneText := oneText_lanes
  isFinite := by
    rintro text (rfl | rfl)
    · exact ⟨_, _, (by decide +kernel : Number.read? (Text.trim "2") = some (Number.ofNat 2))⟩
    · exact ⟨_, _, (by decide +kernel : Number.read? (Text.trim "6") = some (Number.ofNat 6))⟩

def twoLanes : List Filter :=
  [.ofText "lanes" .atLeast "2", .ofText "lanes" .atMost "2", .ofText "lanes" .different "2"]

theorem unsatisfiable_iff_lanes : ¬ Filter.Satisfiable twoLanes ∧
    ∃ set, ofFilters? twoLanes = some set ∧ Filter.Pinched set.filters := by
  have plain : ∀ c ∈ "lanes".toList, Filter.isOperatorChar c = false := by
    simpa using List.all_eq_true.mp (by decide : "lanes".toList.all fun c => !Filter.isOperatorChar c)
  have own : ∀ filter ∈ twoLanes, filter.Compares {"2", "6"} := by
    simp only [twoLanes, List.forall_mem_cons, List.not_mem_nil, false_imp_iff, implies_true, and_true]
    exact ⟨⟨rfl, plain, Or.inl rfl⟩, ⟨rfl, plain, Or.inl rfl⟩, rfl, plain, Or.inl rfl⟩
  have pinched : Filter.Pinched twoLanes := by
    refine ⟨_, List.mem_cons_self, _, List.mem_cons_of_mem _ List.mem_cons_self, rfl, rfl, rfl, rfl, Or.inr (Or.inr ?_)⟩
    exact ⟨_, List.mem_cons_of_mem _ (List.mem_cons_of_mem _ List.mem_cons_self), rfl, rfl, rfl⟩
  have unsatisfiable := pinched.not_satisfiable finiteText_lanes own
  have outcome := ((unsatisfiable_iff finiteText_lanes).1 twoLanes own).1.mp unsatisfiable
  exact ⟨unsatisfiable, outcome.resolve_left (Option.isSome_iff_ne_none.mp (by decide +kernel))⟩

end FilterSet
end MapStyle
