import MapStyle.Proofs.Filter.Merging
/-!
Evaluating a set anew. Its filters come in the order of their slots: on each key the exclusions first, then the bounds
from above, then those from below. Added in this order, and each only where it narrows, they form a coherent set.
-/
namespace MapStyle

def Comparison.mark (op : Comparison) : Char :=
  match op with
  | .different => '!'
  | .modulo => '%'
  | .less | .atMost => '<'
  | .equal | .regex => '='
  | .greater | .atLeast => '>'

namespace Filter

theorem symbol_mark (op : Comparison) : ∃ rest, op.symbol.toList = op.mark :: rest := by
  cases op <;> exact ⟨_, rfl⟩

theorem slot_lt_of_mark {a b : Filter} (sameKey : a.key = b.key) (before : a.op.mark < b.op.mark) : a.slot < b.slot := by
  obtain ⟨aRest, aSymbol⟩ := symbol_mark a.op
  obtain ⟨bRest, bSymbol⟩ := symbol_mark b.op
  rw [slot_eq, slot_eq, sameKey, String.lt_iff]
  simp only [String.toList_append, List.append_assoc]
  apply List.append_left_lt
  rw [aSymbol, bSymbol, List.cons_append, List.cons_append, List.cons_lt_cons_iff]
  exact Or.inl before

theorem mark_le_of_slot {a b : Filter} (sameKey : a.key = b.key) (before : a.slot < b.slot) : a.op.mark ≤ b.op.mark := by
  by_contra later
  exact String.lt_irrefl _ (String.lt_trans before (slot_lt_of_mark sameKey.symm (Char.not_le.mp later)))

end Filter

namespace FilterSet

/-- No value at a bound from above is excluded, so no later bound is sharpened to meet it. -/
def Clear (set : FilterSet) : Prop :=
  ∀ a ∈ set.filters, a.isUpper → ∀ b ∈ set.filters, b.op = .different → b.key = a.key → b.bound ≠ a.bound

theorem clear_empty : Clear empty := by simp [Clear, empty]

theorem entry_mark {set : FilterSet} {filter : Filter} : (set.entry filter).op.mark = filter.op.mark := by
  rcases entry_eq set filter with same | ⟨op, same⟩ | ⟨op, same⟩ <;> simp_all [Comparison.mark]

variable {values : Set String} (one : OneText values) {set : FilterSet} (compares : set.Compares values)
  {filter : Filter} (own : filter.Compares values)
  (ordered : ∀ other ∈ set.filters, other.key = filter.key → other.op.mark ≤ filter.op.mark)
include one compares own ordered

theorem Clear.add (clear : Clear set) : Clear (set.add filter) := by
  have sameKey : (set.entry filter).key = filter.key := entry_key
  intro a aMember aUpper b bMember isExclusion onKey
  rcases (mem_add_iff one compares own).mp aMember with rfl | ⟨aInside, aKept, -⟩ <;>
    rcases (mem_add_iff one compares own).mp bMember with rfl | ⟨bInside, bKept, -⟩
  · simp [Filter.isUpper, isExclusion] at aUpper
  · have kept := bKept (onKey.trans sameKey)
    rw [entry_isUpper] at aUpper
    rw [entry_bound]
    revert kept aUpper
    cases op : filter.op <;> simp [Filter.Drops, Filter.isUpper, op, isExclusion]
    all_goals grind
  · have early := ordered a aInside (onKey.symm.trans sameKey)
    rw [entry_different_iff.mp isExclusion] at early
    revert early aUpper
    cases op : a.op <;> simp [Filter.isUpper, Comparison.mark, op]
  · exact clear a aInside aUpper b bInside isExclusion onKey

omit one compares own in
/-- Where the next filter meets a bound from the other side its value is not excluded: that bound is one from above. -/
theorem Clear.apart (clear : Clear set) : ∀ b ∈ set.filters, b.key = filter.key →
    (filter.isLower ∧ b.isUpper) ∨ (filter.isUpper ∧ b.isLower) → b.bound = filter.bound →
      ∀ c ∈ set.filters, c.key = filter.key → c.op = .different → c.bound ≠ filter.bound := by
  intro b member onKey across meets c inside cKey isExclusion
  rcases across with ⟨-, upper⟩ | ⟨upper, lower⟩
  · rw [← meets]
    exact clear b member upper c inside isExclusion (cKey.trans onKey.symm)
  · have early := ordered b member onKey
    revert early upper lower
    cases op : filter.op <;> cases bOp : b.op <;>
      simp [Filter.isLower, Filter.isUpper, Comparison.mark, op, bOp]

omit ordered in
theorem marks_add {next : Filter} (before : ∀ other ∈ set.filters, other.key = next.key → other.op.mark ≤ next.op.mark)
    (follows : filter.key = next.key → filter.op.mark ≤ next.op.mark) :
    ∀ other ∈ (set.add filter).filters, other.key = next.key → other.op.mark ≤ next.op.mark := by
  intro other member onKey
  rcases (mem_add_iff one compares own).mp member with rfl | ⟨inside, -⟩
  · rw [entry_mark]
    rw [entry_key] at onKey
    exact follows onKey
  · exact before other inside onKey

omit one compares own ordered

theorem reevaluateFilter_same {scope : Scope} {filter evaluated : Filter}
    (evaluates : reevaluateFilter scope filter = .ok evaluated) :
    evaluated.key = filter.key ∧ evaluated.op = filter.op := by
  unfold reevaluateFilter Filter.resolve at evaluates
  split at evaluates
  · cases text : scope.evaluate _ <;> rw [text] at evaluates <;> cases evaluates
    exact ⟨rfl, rfl⟩
  · cases evaluates
    exact ⟨rfl, rfl⟩

/-- Every filter of the set is a comparison once it is evaluated. -/
def ComparesIn (scope : Scope) (values : Set String) (set : FilterSet) : Prop :=
  ∀ filter ∈ set.filters, ∀ evaluated, reevaluateFilter scope filter = .ok evaluated → evaluated.Compares values

theorem ComparesIn.of_texts (scope : Scope) (compares : set.Compares values)
    (texts : ∀ filter ∈ set.filters, filter.source.isNone) : set.ComparesIn scope values := by
  intro filter member evaluated evaluates
  rw [reevaluateFilter, Option.isNone_iff_eq_none.mp (texts filter member)] at evaluates
  cases evaluates
  exact compares filter member

include one in
theorem foldlM_coherent {scope : Scope} {filters : List Filter} {result : FilterSet}
    (comparesIn : ∀ filter ∈ filters, ∀ evaluated, reevaluateFilter scope filter = .ok evaluated →
      evaluated.Compares values)
    (sorted : filters.Pairwise fun a b => a.slot < b.slot)
    (after : ∀ filter ∈ filters, ∀ other ∈ set.filters, other.key = filter.key → other.op.mark ≤ filter.op.mark)
    (compares : set.Compares values) (coherent : Coherent set) (clear : Clear set)
    (folded : filters.foldlM (fun (result : FilterSet) (filter : Filter) => do
      let filter ← reevaluateFilter scope filter
      return if result.judge filter = Verdict.narrows then result.add filter else result) set = .ok result) :
    result.Compares values ∧ Coherent result := by
  induction filters generalizing set with
  | nil =>
    cases folded
    exact ⟨compares, coherent⟩
  | cons head rest ih =>
    rw [List.foldlM_cons] at folded
    cases evaluates : reevaluateFilter scope head with
    | error error => rw [evaluates] at folded; cases folded
    | ok filter =>
      rw [evaluates] at folded
      have stepped : rest.foldlM _ (if set.judge filter = .narrows then set.add filter else set) = Except.ok result :=
        folded
      have own := comparesIn head List.mem_cons_self filter evaluates
      obtain ⟨sameKey, sameOp⟩ := reevaluateFilter_same evaluates
      have comparesRest := fun f (member : f ∈ rest) => comparesIn f (List.mem_cons_of_mem head member)
      have afterRest := fun f (member : f ∈ rest) => after f (List.mem_cons_of_mem head member)
      by_cases verdict : set.judge filter = .narrows
      · have ordered : ∀ other ∈ set.filters, other.key = filter.key → other.op.mark ≤ filter.op.mark :=
          fun other member onKey => sameOp ▸ after head List.mem_cons_self other member (onKey.trans sameKey)
        -- slots are in order, so that an entry has no later operator than a filter that follows on its key
        have later : ∀ f ∈ rest, ∀ other ∈ (set.add filter).filters, other.key = f.key → other.op.mark ≤ f.op.mark := by
          intro f inRest
          refine marks_add one compares own (afterRest f inRest) fun onKey => sameOp ▸ ?_
          exact Filter.mark_le_of_slot (sameKey.symm.trans onKey) ((List.pairwise_cons.mp sorted).1 f inRest)
        refine ih comparesRest sorted.of_cons later (add_compares compares own)
          (coherent.add one compares own verdict (clear.apart ordered)) (clear.add one compares own ordered) ?_
        rwa [if_pos verdict] at stepped
      · exact ih comparesRest sorted.of_cons afterRest compares coherent clear (by rwa [if_neg verdict] at stepped)

include one in
theorem reevaluate_coherent {scope : Scope} {result : FilterSet} (comparesIn : set.ComparesIn scope values)
    (evaluated : set.reevaluate scope = .ok result) : result.Compares values ∧ Coherent result :=
  foldlM_coherent one comparesIn set.ordered (by simp [empty]) (by simp [Compares, empty]) coherent_empty clear_empty
    evaluated

end FilterSet
end MapStyle
