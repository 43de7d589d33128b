import MapStyle.Proofs.Filter.Covering
import MapStyle.Proofs.Filter.Text
/-!
Absorption. A merged set covers what either set held, so where something satisfies it, merging once more changes nothing.
-/
namespace MapStyle
namespace Filter

theorem Admits.yields {values : Set String} (one : OneText values) {existing filter : Filter}
    (theirs : existing.Compares values) (own : filter.Compares values) (admits : existing.Admits filter) :
    existing.Yields filter := by
  have refutes := theirs.refutes_iff one own
  have before := theirs.upto_iff one own
  have after := own.upto_iff one theirs
  have under := theirs.under_iff one own
  have above := own.under_iff one theirs
  revert admits
  cases op : filter.op <;> simp_all [Admits, Yields, Opposes]

end Filter

namespace FilterSet

section
variable {values : Set String} (one : OneText values) {set : FilterSet} (compares : set.Compares values)
include one compares

theorem Covers.judge {other : Filter} (covered : set.Covers other) (own : other.Compares values) {feature : Feature}
    (accepted : set.accepts feature) : set.judge other = .implied := by
  obtain ⟨existing, member, onKey, covers⟩ := covered
  cases verdict : set.judge other with
  | implied => rfl
  | narrows => exact absurd covers (judge_free compares.plainKeys own.plainKey verdict existing member onKey).2
  | contradicts =>
    have entails := ((compares existing member).covers_iff one own).mp covers
    have holds := ((compares existing member).accepts_iff one feature).mp (accepted existing member)
    rw [onKey] at holds
    exact absurd ((own.accepts_iff one feature).mpr (entails.sound holds))
      (judge_contradicts one compares own verdict accepted)

omit one compares in
theorem merge_of_implied {incoming : FilterSet} (implied : ∀ filter ∈ incoming.filters, set.judge filter = .implied) :
    set.merge incoming = .unchanged := by
  rcases merge_cases set incoming with ⟨-, filter, member, verdict⟩ | ⟨same, -⟩ | ⟨-, someAdded, -⟩
  · simp [implied filter member] at verdict
  · exact same
  · obtain ⟨filter, member⟩ := List.exists_mem_of_ne_nil _ someAdded
    obtain ⟨inside, verdict⟩ := mem_additions.mp member
    simp [implied filter inside] at verdict

variable {incoming merged : FilterSet} (theirs : incoming.Compares values) (coherent : Coherent incoming)
include theirs coherent

theorem takes_additions (key : String) : set.Takes (set.additions incoming) key := by
  obtain ⟨own, admitted, apart⟩ := additions_admitted one compares theirs coherent
  constructor
  · exact fun filter member _ => ((own filter member).definite one).2
  · intro existing member onKey
    constructor
    · exact ((compares existing member).definite one).2
    · intro filter isAdded filterKey
      have admits := admitted filter isAdded existing member (onKey.trans filterKey.symm)
      exact admits.yields one (compares existing member) (own filter isAdded)
  · apply apart.imp_of_mem
    intro a b aMember bMember admits aKey bKey
    obtain ⟨notEqual, admits⟩ := admits (aKey.trans bKey.symm)
    exact ⟨admits.yields one (own a aMember) (own b bMember), fun isEqual => absurd isEqual notEqual⟩

variable (outcome : set.merge incoming = .merged merged)
include outcome

/-- A set with the text of the merged one has nothing to gain from `incoming`. -/
theorem merge_absorbed {third : FilterSet} (thirdCompares : third.Compares values) (sameText : third.text = merged.text)
    {feature : Feature} (accepted : third.accepts feature) : third.merge incoming = .unchanged := by
  apply merge_of_implied
  intro filter member
  have notPattern := (theirs filter member).notPattern
  obtain ⟨existing, inside, onKey, covers⟩ : merged.Covers filter := by
    apply merge_covers compares.plainKeys theirs.plainKeys outcome (takes_additions one compares theirs coherent _)
    · intro isPattern
      simp [notPattern] at isPattern
    · exact Or.inr member
  have mergedCompares := merge_compares compares theirs outcome
  obtain ⟨twin, twinMember, sameKey, sameOp, sameValue⟩ := exists_of_text one thirdCompares mergedCompares sameText inside
  have twinCovers : third.Covers filter :=
    ⟨twin, twinMember, sameKey.trans onKey, covers.congr sameOp.symm sameValue.symm⟩
  exact twinCovers.judge one thirdCompares (theirs filter member) accepted

end

end FilterSet
end MapStyle
