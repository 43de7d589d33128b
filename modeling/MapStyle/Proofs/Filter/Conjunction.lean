import MapStyle.Proofs.Filter.Merging
/-!
Sets as conjunctions. A set that is built from comparisons with numbers, by adding them one by one or by merging sets so
built, means all that was put into it; a set that cannot be built means nothing.
-/
namespace MapStyle
namespace FilterSet
variable {values : Set String}

/-- The sets that comparisons with numbers of `values` can be put together to. -/
inductive Built (values : Set String) : FilterSet → Prop where
  | conjunction {filters : List Filter} {set : FilterSet} (compares : ∀ filter ∈ filters, filter.Compares values)
      (formed : ofFilters? filters = some set) : Built values set
  | merged {set other result : FilterSet} (left : Built values set) (right : Built values other)
      (outcome : set.merge other = .merged result) : Built values result

section
variable (one : OneText values) {set : FilterSet} (compares : set.Compares values) {filters : List Filter}
include one

section
include compares

theorem foldlM_conjoin_some (own : ∀ filter ∈ filters, filter.Compares values) {result : FilterSet}
    (conjoined : filters.foldlM conjoin? set = some result) :
    result.Compares values ∧ (Single set → Single result) ∧
      ∀ feature, result.accepts feature ↔ set.accepts feature ∧ ∀ filter ∈ filters, filter.accepts feature := by
  induction filters generalizing set with
  | nil =>
    obtain rfl := Option.some.inj conjoined
    simpa using compares
  | cons head rest ih =>
    rw [List.foldlM_cons] at conjoined
    cases first : set.conjoin? head with
    | none => simp [first] at conjoined
    | some next =>
      rw [first] at conjoined
      obtain ⟨nextCompares, nextSingle, nextAccepts⟩ := conjoin_some one compares (own head List.mem_cons_self) first
      obtain ⟨resultCompares, resultSingle, resultAccepts⟩ :=
        ih nextCompares (fun filter inRest => own filter (List.mem_cons_of_mem head inRest)) conjoined
      constructor
      · exact resultCompares
      constructor
      · exact fun single => resultSingle (nextSingle single)
      · intro feature
        rw [resultAccepts, nextAccepts, List.forall_mem_cons, and_assoc]

theorem foldlM_conjoin_none (own : ∀ filter ∈ filters, filter.Compares values)
    (conjoined : filters.foldlM conjoin? set = none) {feature : Feature} (accepted : set.accepts feature) :
    ¬ ∀ filter ∈ filters, filter.accepts feature := by
  induction filters generalizing set with
  | nil => simp at conjoined
  | cons head rest ih =>
    intro onAll
    obtain ⟨onHead, onRest⟩ := List.forall_mem_cons.mp onAll
    rw [List.foldlM_cons] at conjoined
    cases first : set.conjoin? head with
    | none => exact conjoin_none one compares (own head List.mem_cons_self) first accepted onHead
    | some next =>
      rw [first] at conjoined
      obtain ⟨nextCompares, -, nextAccepts⟩ := conjoin_some one compares (own head List.mem_cons_self) first
      have acceptedNext := (nextAccepts feature).mpr ⟨accepted, onHead⟩
      exact ih nextCompares (fun filter inRest => own filter (List.mem_cons_of_mem head inRest)) conjoined acceptedNext onRest

end

include compares in
theorem merge_single {other result : FilterSet} (theirs : other.Compares values) (single : Single set)
    (otherSingle : Single other) (outcome : set.merge other = .merged result) :
    result.Compares values ∧ Single result := by
  have resultCompares := merge_compares compares theirs outcome
  have sole := merge_sole compares.plainKeys single.sole theirs.plainKeys otherSingle.sole outcome
  exact ⟨resultCompares, sole.single (resultCompares.measures one)⟩

theorem Built.single (built : Built values set) : set.Compares values ∧ Single set := by
  have nothing : empty.Compares values := by simp [Compares, empty]
  induction built with
  | conjunction own formed =>
    obtain ⟨compares, single, -⟩ := foldlM_conjoin_some one nothing own formed
    exact ⟨compares, single single_empty⟩
  | merged _ _ outcome left right => exact merge_single one left.1 right.1 left.2 right.2 outcome

end

/-- Sets mean the conjunction of what was put into them. Where the filters of a list form a set, it accepts what they all
accept; where they form none, nothing satisfies them all. And of sets built like this, a merged set accepts what both
accept, one that stays as it is implies the other, and sets in conflict accept nothing in common. -/
theorem conjunction_accepts (one : OneText values) :
    (∀ filters : List Filter, (∀ filter ∈ filters, filter.Compares values) →
      (∀ set, ofFilters? filters = some set → ∀ feature,
        (∀ filter ∈ filters, filter.accepts feature) ↔ set.accepts feature) ∧
      (ofFilters? filters = none → ∀ feature, ¬ ∀ filter ∈ filters, filter.accepts feature)) ∧
    ∀ set other : FilterSet, Built values set → Built values other → (∃ feature, other.accepts feature) →
      (∀ result, set.merge other = .merged result → ∀ feature,
        result.accepts feature ↔ set.accepts feature ∧ other.accepts feature) ∧
      (set.merge other = .unchanged → ∀ feature, set.accepts feature → other.accepts feature) ∧
      (set.merge other = .conflict → ∀ feature, ¬ (set.accepts feature ∧ other.accepts feature)) := by
  have nothing : empty.Compares values := by simp [Compares, empty]
  have anything : ∀ feature, empty.accepts feature := by simp [accepts, empty]
  constructor
  · intro filters own
    constructor
    · intro set formed feature
      obtain ⟨-, -, meaning⟩ := foldlM_conjoin_some one nothing own formed
      exact ⟨fun onAll => (meaning feature).mpr ⟨anything feature, onAll⟩, fun accepted => ((meaning feature).mp accepted).2⟩
    · exact fun failed feature => foldlM_conjoin_none one nothing own failed (anything feature)
  · intro set other built otherBuilt satisfied
    obtain ⟨compares, -⟩ := built.single one
    obtain ⟨theirs, otherSingle⟩ := otherBuilt.single one
    obtain ⟨feature, accepted⟩ := satisfied
    -- a merge is exact for coherent sets, and a single set that something satisfies is coherent
    have coherent := otherSingle.coherent one theirs accepted
    constructor
    · exact fun result outcome => (merge_merged one compares theirs coherent outcome).2
    constructor
    · exact fun outcome feature accepted => merge_unchanged one compares theirs outcome accepted
    · exact fun outcome feature both => merge_conflict one compares theirs outcome both.1 both.2

def moreThanTwo : List Filter := [.ofText "lanes" .different "2", .ofText "lanes" .atLeast "2"]

def lessThanSix : List Filter := [.ofText "lanes" .different "2", .ofText "lanes" .less "6"]

theorem oneText_lanes : OneText {"2", "6"} := by
  have two : Number.read? (Text.trim "2") = some (Number.ofNat 2) := by decide +kernel
  have six : Number.read? (Text.trim "6") = some (Number.ofNat 6) := by decide +kernel
  constructor
  · rintro text (rfl | rfl)
    · exact ⟨_, two, by simp [Number.ofNat]⟩
    · exact ⟨_, six, by simp [Number.ofNat]⟩
  · rintro a (rfl | rfl) b (rfl | rfl) x y readsLeft readsRight below above
    · rfl
    · obtain rfl := Option.some.inj (two.symm.trans readsLeft)
      obtain rfl := Option.some.inj (six.symm.trans readsRight)
      exact absurd above (by decide +kernel)
    · obtain rfl := Option.some.inj (six.symm.trans readsLeft)
      obtain rfl := Option.some.inj (two.symm.trans readsRight)
      exact absurd below (by decide +kernel)
    · rfl

theorem compares_lanes : ∀ filter ∈ moreThanTwo ++ lessThanSix, filter.Compares {"2", "6"} := by
  have plain : ∀ c ∈ "lanes".toList, Filter.isOperatorChar c = false := by
    simpa using List.all_eq_true.mp (by decide : "lanes".toList.all fun c => !Filter.isOperatorChar c)
  intro filter member
  simp only [moreThanTwo, lessThanSix, List.cons_append, List.nil_append, List.mem_cons, List.not_mem_nil, or_false]
    at member
  rcases member with rfl | rfl | rfl | rfl
  · exact ⟨rfl, plain, Or.inl rfl⟩
  · exact ⟨rfl, plain, Or.inl rfl⟩
  · exact ⟨rfl, plain, Or.inl rfl⟩
  · exact ⟨rfl, plain, Or.inr rfl⟩

theorem lessThanSix_accepts : ∀ filter ∈ lessThanSix, filter.accepts fun _ => (Number.ofNat 4).position := by
  have two : Number.read? (Text.trim "2") = some (Number.ofNat 2) := by decide +kernel
  have six : Number.read? (Text.trim "6") = some (Number.ofNat 6) := by decide +kernel
  have aboveTwo : (Number.ofNat 2).position < (Number.ofNat 4).position :=
    (Number.lt_iff_position (by simp [Number.ofNat]) (by simp [Number.ofNat])).mp (by decide +kernel)
  have belowSix : (Number.ofNat 4).position < (Number.ofNat 6).position :=
    (Number.lt_iff_position (by simp [Number.ofNat]) (by simp [Number.ofNat])).mp (by decide +kernel)
  rw [lessThanSix, List.forall_mem_cons, List.forall_mem_singleton]
  exact ⟨⟨_, two, ne_of_gt aboveTwo⟩, ⟨_, six, belowSix⟩⟩

theorem conjunction_accepts_lanes : ∃ set other result, ofFilters? moreThanTwo = some set ∧
    ofFilters? lessThanSix = some other ∧ set.merge other = .merged result ∧
    ∀ feature, result.accepts feature ↔ ∀ filter ∈ moreThanTwo ++ lessThanSix, filter.accepts feature := by
  obtain ⟨forms, merges⟩ := conjunction_accepts oneText_lanes
  obtain ⟨own, theirs⟩ := List.forall_mem_append.mp compares_lanes
  have isFormed : ∀ {filters}, (ofFilters? filters).isSome → ofFilters? filters = some ((ofFilters? filters).getD empty) := by
    intro filters isSome
    obtain ⟨set, formed⟩ := Option.isSome_iff_exists.mp isSome
    rw [formed, Option.getD_some]
  have formed := isFormed (by decide +kernel : (ofFilters? moreThanTwo).isSome)
  have otherFormed := isFormed (by decide +kernel : (ofFilters? lessThanSix).isSome)
  have means := (forms _ own).1 _ formed
  have otherMeans := (forms _ theirs).1 _ otherFormed
  have satisfied := (otherMeans _).mp lessThanSix_accepts
  obtain ⟨merged, -, -⟩ := merges _ _ (.conjunction own formed) (.conjunction theirs otherFormed) ⟨_, satisfied⟩
  have outcome : ∃ result, merge ((ofFilters? moreThanTwo).getD empty) ((ofFilters? lessThanSix).getD empty) =
      .merged result := by
    rcases merge_cases ((ofFilters? moreThanTwo).getD empty) ((ofFilters? lessThanSix).getD empty) with
      ⟨-, filter, member, verdict⟩ | ⟨-, implied⟩ | ⟨same, -⟩
    · exact absurd verdict ((by decide +kernel : ∀ filter ∈ ((ofFilters? lessThanSix).getD empty).filters,
        judge ((ofFilters? moreThanTwo).getD empty) filter ≠ .contradicts) filter member)
    · exact absurd implied (by decide +kernel)
    · exact ⟨_, same⟩
  obtain ⟨result, outcome⟩ := outcome
  refine ⟨_, _, result, formed, otherFormed, outcome, fun feature => ?_⟩
  rw [merged result outcome, ← means, ← otherMeans, List.forall_mem_append]

end FilterSet
end MapStyle
