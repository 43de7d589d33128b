import MapStyle.Proofs.Filter.Absorption
/-!
Idempotence. A set adds nothing to itself, and a merged set has absorbed both of its parts, whatever the values are. That
is so key by key, where bounds are numbers and no two filters refute each other; only patterns give way to an equality
that the other set adds on their key.
-/
namespace MapStyle
namespace Filter

theorem Covers.refuted {existing other filter : Filter} (covers : existing.Covers filter)
    (refutes : other.Refutes filter) (notEqual : existing.op ≠ .equal) : other.Refutes existing ∨ existing.Refutes other := by
  have sameBound := @bound_congr other filter
  have sameNumber := @isNumber_congr other filter
  revert covers refutes
  cases target : filter.op <;> cases old : existing.op <;>
    simp only [Covers, Refutes, target, old, Upto, Under, Excludes, false_imp_iff] <;>
    cases other.op <;> simp only [false_imp_iff, imp_true_iff] <;> grind

theorem Refutes.notPattern {existing filter : Filter} (refutes : existing.Refutes filter) :
    isPattern existing.op = false := by
  revert refutes
  cases new : filter.op <;> cases old : existing.op <;> simp [Refutes, Excludes, isPattern, new, old]

theorem not_refutes_of_equal {existing filter : Filter} (covers : existing.Covers filter) (isEqual : existing.op = .equal) :
    ¬ existing.Refutes filter := by
  revert covers
  cases op : filter.op <;> simp [Refutes, Covers, op, isEqual]

theorem precedes_of_beside {a b : Filter} (numbers : a.Numbered ∧ b.Numbered) (apart : ¬ a.Refutes b)
    (besides : a.Definite → b.Definite → a.Beside b) : a.Precedes b := by
  by_cases aPattern : isPattern a.op
  · refine ⟨?_, fun _ => aPattern⟩
    cases op : b.op <;> cases old : a.op <;>
      simp [Yields, Refutes, Excludes, isLower, isUpper, op, old, isPattern] at aPattern ⊢
  by_cases bPattern : isPattern b.op
  · refine ⟨?_, fun isEqual => ?_⟩
    · cases op : b.op <;> simp [Yields, op, isPattern] at bPattern ⊢
    · simp [isEqual, isPattern] at bPattern
  have beside := besides ⟨by simpa using aPattern, numbers.1⟩ ⟨by simpa using bPattern, numbers.2⟩
  refine ⟨?_, fun isEqual => absurd isEqual beside.otherNotEqual⟩
  have notEqual := beside.notEqual
  have lower := beside.lower
  have upper := beside.upper
  have aNumber := numbers.1
  have bNumber := numbers.2
  revert apart lower upper notEqual aNumber bNumber
  cases new : b.op <;> cases old : a.op <;>
    simp [Yields, Refutes, Numbered, isLower, isUpper, Upto, Under, new, old] <;> grind

theorem slot_lt_of_regex {a b : Filter} (sameKey : a.key = b.key) (isEqual : a.op = .equal) (isRegex : b.op = .regex) :
    a.slot < b.slot := by
  rw [slot_eq, slot_eq, sameKey, isEqual, isRegex, String.lt_iff]
  simp only [slotTail, isEqual, isPerValue, Comparison.symbol, String.toList_append, List.append_assoc]
  apply List.append_left_lt
  exact List.cons_lt_cons_iff.mpr (Or.inr ⟨rfl, List.nil_lt_cons _ _⟩)

end Filter

namespace FilterSet

def NumberedOn (set : FilterSet) (key : String) : Prop := ∀ filter ∈ set.filters, filter.key = key → filter.Numbered

/-- On the key, bounds are numbers and no filter refutes another. -/
structure Settled (set : FilterSet) (key : String) : Prop where
  numbered : set.NumberedOn key
  apart : ∀ a ∈ set.filters, ∀ b ∈ set.filters, a.key = key → b.key = key → ¬ a.Refutes b

/-- A pattern on a key of an equality that is added. Only a regular expression that is added with it comes after it. -/
def Overridden (set incoming : FilterSet) (filter : Filter) : Prop :=
  Filter.isPattern filter.op ∧
    (∃ equality ∈ set.additions incoming, equality.key = filter.key ∧ equality.op = .equal) ∧
    ¬ (filter.op = .regex ∧ filter ∈ set.additions incoming)

section
variable {set : FilterSet} (plain : set.PlainKeys) (sole : Sole set)
include plain sole

theorem Covers.judge_settled {filter : Filter} (covered : set.Covers filter) (own : filter.PlainKey)
    (settled : set.Settled filter.key) : set.judge filter = .implied := by
  obtain ⟨existing, member, onKey, covers⟩ := covered
  cases verdict : set.judge filter with
  | implied => rfl
  | narrows => exact absurd covers (judge_free plain own verdict existing member onKey).2
  | contradicts =>
    have weighed := judge_weighed plain own
    rw [verdict] at weighed
    cases weighed with
    | contradicts other inside otherKey refutes =>
      by_cases isEqual : existing.op = .equal
      · have definite : existing.Definite := ⟨by rw [isEqual]; rfl, settled.numbered existing member onKey⟩
        have otherDefinite : other.Definite := ⟨refutes.notPattern, settled.numbered other inside otherKey⟩
        rcases sole existing member other inside (onKey.trans otherKey.symm) definite otherDefinite with rfl | beside
        · exact absurd refutes (Filter.not_refutes_of_equal covers isEqual)
        · exact absurd isEqual beside.notEqual
      · rcases covers.refuted refutes isEqual with forth | back
        · exact absurd forth (settled.apart other inside existing member otherKey onKey)
        · exact absurd back (settled.apart existing member other inside onKey otherKey)

theorem foldlM_conjoin_sole {filters : List Filter} (own : ∀ filter ∈ filters, filter.PlainKey) {result : FilterSet}
    (conjoined : filters.foldlM conjoin? set = some result) : result.PlainKeys ∧ Sole result := by
  apply foldlM_conjoin_induct _ ⟨plain, sole⟩ conjoined
  rintro set ⟨plain, sole⟩ filter member verdict
  exact ⟨add_plainKeys plain (own filter member), sole.add plain (own filter member) verdict⟩

variable {incoming : FilterSet} (theirs : incoming.PlainKeys) (incomingSole : Sole incoming)

omit sole in
include theirs incomingSole in
theorem takes_of_settled {key : String} (numbered : set.NumberedOn key) (settled : incoming.Settled key) :
    set.Takes (set.additions incoming) key := by
  have isThere : ∀ {filter}, filter ∈ set.additions incoming → filter ∈ incoming.filters :=
    fun member => (mem_additions.mp member).1
  constructor
  · exact fun filter member onKey => settled.numbered filter (isThere member) onKey
  · intro existing member onKey
    refine ⟨numbered existing member onKey, fun filter isAdded filterKey => ?_⟩
    have free := judge_free plain (theirs filter (isThere isAdded)) (mem_additions.mp isAdded).2
    exact Filter.yields_of_free (numbered existing member onKey) (settled.numbered filter (isThere isAdded) filterKey)
      (free existing member (onKey.trans filterKey.symm))
  · apply (additions_ordered set incoming).imp_of_mem
    intro a b aMember bMember below aKey bKey
    have differ : a ≠ b := fun same => String.lt_irrefl _ (same ▸ below)
    have numbers := And.intro (settled.numbered a (isThere aMember) aKey) (settled.numbered b (isThere bMember) bKey)
    apply Filter.precedes_of_beside numbers (settled.apart a (isThere aMember) b (isThere bMember) aKey bKey)
    intro aDefinite bDefinite
    exact (incomingSole a (isThere aMember) b (isThere bMember) (aKey.trans bKey.symm) aDefinite bDefinite).resolve_left
      differ

omit sole in
include theirs incomingSole in
theorem merge_covers_settled {merged : FilterSet} (outcome : set.merge incoming = .merged merged) {filter : Filter}
    (member : filter ∈ set.filters ++ incoming.filters) (numbered : set.NumberedOn filter.key)
    (settled : incoming.Settled filter.key) (kept : ¬ Overridden set incoming filter) : merged.Covers filter := by
  apply merge_covers plain theirs outcome (takes_of_settled plain theirs incomingSole numbered settled)
  · -- a pattern that is not overridden is a regular expression behind the equality
    intro isPattern equality isAdded onKey isEqual
    obtain ⟨isRegex, filterAdded⟩ : filter.op = .regex ∧ filter ∈ set.additions incoming := by
      by_contra other
      exact kept ⟨isPattern, ⟨equality, isAdded, onKey, isEqual⟩, other⟩
    exact ⟨filterAdded, Filter.slot_lt_of_regex onKey isEqual isRegex⟩
  · rcases List.mem_append.mp member with inSet | inOther
    · exact Or.inl ⟨filter, inSet, rfl, Filter.covers_self (numbered filter inSet rfl)⟩
    · exact Or.inr inOther

end

/-- Sets that are formed of filters with any values add nothing to themselves, and a merged set has absorbed its parts,
on every key where bounds are numbers and no two filters refute each other: all but the patterns that an equality of the
other set overrides. -/
theorem merge_absorbs {filters incoming : List Filter} (plain : ∀ filter ∈ filters ++ incoming, filter.PlainKey)
    {set other : FilterSet} (formed : ofFilters? filters = some set) (otherFormed : ofFilters? incoming = some other) :
    (∀ filter ∈ set.filters, set.Settled filter.key → set.judge filter = .implied) ∧
    ((∀ key, set.Settled key) → set.merge set = .unchanged) ∧
    ∀ merged, set.merge other = .merged merged →
      (∀ filter ∈ set.filters ++ other.filters, set.NumberedOn filter.key → other.Settled filter.key →
        merged.Settled filter.key → ¬ Overridden set other filter → merged.judge filter = .implied) ∧
      ((∀ key, set.NumberedOn key ∧ other.Settled key ∧ merged.Settled key) →
        (∀ filter ∈ set.filters ++ other.filters, ¬ Overridden set other filter) →
        merged.merge set = .unchanged ∧ merged.merge other = .unchanged) := by
  obtain ⟨own, theirs⟩ := List.forall_mem_append.mp plain
  obtain ⟨setPlain, setSole⟩ := foldlM_conjoin_sole (by simp [PlainKeys, empty]) sole_empty own formed
  obtain ⟨otherPlain, otherSole⟩ := foldlM_conjoin_sole (by simp [PlainKeys, empty]) sole_empty theirs otherFormed
  have bySet : ∀ filter ∈ set.filters, set.Settled filter.key → set.judge filter = .implied := by
    intro filter member settled
    have self := Filter.covers_self (settled.numbered filter member rfl)
    exact Covers.judge_settled setPlain setSole ⟨filter, member, rfl, self⟩ (setPlain filter member) settled
  refine ⟨bySet, fun settled => merge_of_implied fun filter member => bySet filter member (settled filter.key), ?_⟩
  intro merged outcome
  have mergedPlain : merged.PlainKeys := merge_plainKeys setPlain otherPlain outcome
  have mergedSole : Sole merged := merge_sole setPlain setSole otherPlain otherSole outcome
  have byMerged : ∀ filter ∈ set.filters ++ other.filters, set.NumberedOn filter.key → other.Settled filter.key →
      merged.Settled filter.key → ¬ Overridden set other filter → merged.judge filter = .implied := by
    intro filter member numbered settled mergedSettled kept
    have ownKey : filter.PlainKey := (List.mem_append.mp member).elim (setPlain filter) (otherPlain filter)
    have covered := merge_covers_settled setPlain otherPlain otherSole outcome member numbered settled kept
    exact covered.judge_settled mergedPlain mergedSole ownKey mergedSettled
  refine ⟨byMerged, fun settled kept => ?_⟩
  have implied : ∀ filter ∈ set.filters ++ other.filters, merged.judge filter = .implied := by
    intro filter member
    obtain ⟨numbered, otherSettled, mergedSettled⟩ := settled filter.key
    exact byMerged filter member numbered otherSettled mergedSettled (kept filter member)
  obtain ⟨onSet, onOther⟩ := List.forall_mem_append.mp implied
  exact ⟨merge_of_implied onSet, merge_of_implied onOther⟩

def wideStreets : List Filter := [.ofText "lanes" .atLeast "2", .ofText "ref" .regex "A"]

def mainStreets : List Filter := [.ofText "lanes" .different "2", .ofText "name" .equal "main"]

def ofStreets (set : FilterSet) : Bool := set.filters.all fun filter =>
  [("lanes", Comparison.different, "2"), ("lanes", .atLeast, "2"), ("name", .equal, "main"), ("ref", .regex, "A")].contains
    (filter.key, filter.op, filter.value)

theorem settled_streets {set : FilterSet} (known : set.ofStreets) (key : String) : set.Settled key := by
  have two : Number.read? (Text.trim "2") = some (Number.ofNat 2) := by decide +kernel
  have cases : ∀ filter ∈ set.filters, (filter.key = "lanes" ∧ filter.op = .different ∧ filter.value = "2") ∨
      (filter.key = "lanes" ∧ filter.op = .atLeast ∧ filter.value = "2") ∨
      (filter.key = "name" ∧ filter.op = .equal ∧ filter.value = "main") ∨
      (filter.key = "ref" ∧ filter.op = .regex ∧ filter.value = "A") := by
    intro filter member
    have listed := List.all_eq_true.mp known filter member
    simpa using listed
  constructor
  · intro filter member _ isBound
    rcases cases filter member with ⟨-, op, -⟩ | ⟨-, -, value⟩ | ⟨-, op, -⟩ | ⟨-, op, -⟩
    · simp [Filter.isLower, Filter.isUpper, op] at isBound
    · exact ⟨Number.ofNat 2, by rw [Filter.numeric, value, two], by simp [Number.ofNat]⟩
    · simp [Filter.isLower, Filter.isUpper, op] at isBound
    · simp [Filter.isLower, Filter.isUpper, op] at isBound
  · rintro a aMember b bMember rfl sameKey
    rcases cases a aMember with ⟨aKey, aOp, aValue⟩ | ⟨aKey, aOp, aValue⟩ | ⟨aKey, aOp, aValue⟩ | ⟨aKey, aOp, aValue⟩ <;>
      rcases cases b bMember with ⟨bKey, bOp, bValue⟩ | ⟨bKey, bOp, bValue⟩ | ⟨bKey, bOp, bValue⟩ | ⟨bKey, bOp, bValue⟩ <;>
      simp [aKey, bKey] at sameKey <;> simp [Filter.Refutes, aOp, bOp, aValue, bValue]

theorem merge_absorbs_streets : ∃ set other merged, ofFilters? wideStreets = some set ∧
    ofFilters? mainStreets = some other ∧ set.merge other = .merged merged ∧ merged.merge set = .unchanged ∧
    merged.merge other = .unchanged := by
  have plain : ∀ filter ∈ wideStreets ++ mainStreets, filter.PlainKey := by
    have listed : (wideStreets ++ mainStreets).all fun filter =>
      filter.key.toList.all fun c => !Filter.isOperatorChar c := by decide +kernel
    intro filter member c inKey
    simpa using List.all_eq_true.mp (List.all_eq_true.mp listed filter member) c inKey
  obtain ⟨set, formed⟩ := Option.isSome_iff_exists.mp (by decide +kernel : (ofFilters? wideStreets).isSome)
  obtain ⟨other, otherFormed⟩ := Option.isSome_iff_exists.mp (by decide +kernel : (ofFilters? mainStreets).isSome)
  have known : (ofFilters? wideStreets).any ofStreets := by decide +kernel
  have otherKnown : (ofFilters? mainStreets).any ofStreets := by decide +kernel
  have mergedKnown : ((ofFilters? wideStreets).bind fun set => (ofFilters? mainStreets).map fun other =>
      match set.merge other with
      | .merged merged => merged.ofStreets
      | _ => false) = some true := by decide +kernel
  have onlyEqual : ((ofFilters? wideStreets).bind fun set => (ofFilters? mainStreets).map fun other =>
      (set.filters ++ other.filters).all fun filter => !Filter.isPattern filter.op ||
        (set.additions other).all fun equality => !(equality.key == filter.key)) = some true := by decide +kernel
  rw [formed] at known mergedKnown onlyEqual
  rw [otherFormed] at otherKnown mergedKnown onlyEqual
  simp only [Option.bind_some, Option.map_some, Option.some.injEq] at mergedKnown onlyEqual
  cases outcome : set.merge other with
  | conflict => simp [outcome] at mergedKnown
  | unchanged => simp [outcome] at mergedKnown
  | merged merged =>
    rw [outcome] at mergedKnown
    have absorbs := (merge_absorbs plain formed otherFormed).2.2 merged outcome
    refine ⟨set, other, merged, formed, otherFormed, outcome, absorbs.2 ?_ ?_⟩
    · exact fun key => ⟨(settled_streets known key).numbered, settled_streets otherKnown key, settled_streets mergedKnown key⟩
    · rintro filter member ⟨isPattern, ⟨equality, isAdded, sameKey, -⟩, -⟩
      have apart := List.all_eq_true.mp onlyEqual filter member
      simp [isPattern] at apart
      exact apart equality isAdded sameKey

theorem merge_absorbs_fails :
    (∃ set other merged, ofFilters? [.ofText "name" .regex "p"] = some set ∧
      ofFilters? [.ofText "name" .equal "x"] = some other ∧ set.merge other = .merged merged ∧
      merged.merge set ≠ .unchanged) ∧
    (∃ set, ofFilters? [.ofText "ele" .greater "low"] = some set ∧ set.merge set ≠ .unchanged) ∧
    (∃ set other merged, ofFilters? [.ofText "a" .atLeast "5"] = some set ∧
      ofFilters? [.ofText "a<" .equal "3"] = some other ∧ set.merge other = .merged merged ∧
      merged.merge set ≠ .unchanged) ∧
    (∃ set, ofFilters? [.ofText "a" .atLeast "5", .ofText "a" .different "5", .ofText "a" .atMost "5"] = some set ∧
      set.merge set ≠ .unchanged) := by
  have adds : ∀ {set other : FilterSet}, set.implies other = false → set.merge other ≠ .unchanged := by
    intro set other narrowed same
    simp [implies, same] at narrowed
  have toItself : ∀ {filters}, (ofFilters? filters).any (fun set => !set.implies set) →
      ∃ set, ofFilters? filters = some set ∧ set.merge set ≠ .unchanged := by
    intro filters narrowed
    cases formed : ofFilters? filters with
    | none => simp [formed] at narrowed
    | some set =>
      rw [formed] at narrowed
      exact ⟨set, rfl, adds (by simpa using narrowed)⟩
  have toMerged : ∀ {filters incoming}, ((ofFilters? filters).any fun set => (ofFilters? incoming).any fun other =>
      match set.merge other with
      | .merged merged => !merged.implies set
      | _ => false) → ∃ set other merged, ofFilters? filters = some set ∧ ofFilters? incoming = some other ∧
      set.merge other = .merged merged ∧ merged.merge set ≠ .unchanged := by
    intro filters incoming narrowed
    cases formed : ofFilters? filters with
    | none => simp [formed] at narrowed
    | some set =>
      cases otherFormed : ofFilters? incoming with
      | none => simp [formed, otherFormed] at narrowed
      | some other =>
        simp only [formed, otherFormed, Option.any_some] at narrowed
        cases outcome : set.merge other with
        | conflict => simp [outcome] at narrowed
        | unchanged => simp [outcome] at narrowed
        | merged merged =>
          rw [outcome] at narrowed
          exact ⟨set, other, merged, rfl, rfl, outcome, adds (by simpa using narrowed)⟩
  exact ⟨toMerged (by decide +kernel), toItself (by decide +kernel), toMerged (by decide +kernel),
    toItself (by decide +kernel)⟩

end FilterSet
end MapStyle
