import MapStyle.Filter.Set
import MapStyle.Proofs.Renumbering.Reading
/-!
Renumbering of filters. Evaluation does not look at the identity of an expression, and sets compare filters by what is
written in them, so that all that is done with filters is done with renumbered ones alike.
-/
namespace MapStyle

/-- What is done step by step is done with renumbered items alike, if each step is. -/
theorem foldlM_renumber {α β ε : Type} {ren : α → α} {renResult : β → β} {step stepOther : β → α → Except ε β}
    (each : ∀ result item, stepOther (renResult result) (ren item) = (step result item).map renResult) (items : List α)
    (result : β) : (items.map ren).foldlM stepOther (renResult result) = (items.foldlM step result).map renResult := by
  induction items generalizing result with
  | nil => rfl
  | cons item rest ih =>
    rw [List.map_cons, List.foldlM_cons, List.foldlM_cons, each]
    cases step result item with
    | error error => rfl
    | ok next => exact ih next

section scope
variable (r : Renumbering) (scope : Scope)

def Scope.renumber : Scope := ⟨scope.entries.map r.binding⟩

namespace Scope

@[simp] theorem get?_renumber (name : String) : (scope.renumber r).get? name = (scope.get? name).map (Expression.renumber r) := by
  obtain ⟨entries⟩ := scope
  simp only [get?, renumber]
  induction entries with
  | nil => rfl
  | cons entry rest ih =>
    obtain ⟨key, expr⟩ := entry
    simp only [List.map_cons, Renumbering.binding, List.lookup_cons, ih]
    split <;> rfl

theorem define_renumber (name : String) (expr : Expression) :
    (scope.renumber r).define name (expr.renumber r) = (scope.define name expr).renumber r := by
  simp only [define, renumber, List.map_cons, List.filter_map, Function.comp_def]
  rfl

theorem defineAll_renumber (bindings : List (String × Expression)) :
    (scope.renumber r).defineAll (bindings.map r.binding) = (scope.defineAll bindings).renumber r := by
  induction bindings generalizing scope with
  | nil => rfl
  | cons entry rest ih => exact (congrArg (defineAll · _) (define_renumber r scope entry.1 entry.2)).trans (ih _)

theorem expand_renumber (place : Place) (fuel : Nat) :
    (scope.renumber r).expand place fuel = scope.expand place fuel := by
  induction fuel with
  | zero =>
    funext name
    rw [expand, expand, get?_renumber]
    cases scope.get? name with
    | none => rfl
    | some expr => rfl
  | succ fuel ih =>
    funext name
    rw [expand, expand, get?_renumber]
    cases scope.get? name with
    | none => rfl
    | some expr => exact congrArg expr.value.render ih

/-- The identity of an expression is there for the texts that are stored; evaluation does not see it. -/
@[simp] theorem evaluate_renumber : (scope.renumber r).evaluate = scope.evaluate :=
  funext fun expr => congrArg expr.value.render (expand_renumber r scope expr.place maxDepth)

@[simp] theorem evaluate_of_renumber (expr : Expression) : scope.evaluate (expr.renumber r) = scope.evaluate expr := rfl

end Scope
end scope

section filter
variable (r : Renumbering)

def Filter.renumber (filter : Filter) : Filter := { filter with source := filter.source.map (Expression.renumber r) }

namespace Filter
variable (filter : Filter)

@[simp] theorem renumber_key : (filter.renumber r).key = filter.key := rfl

@[simp] theorem renumber_op : (filter.renumber r).op = filter.op := rfl

@[simp] theorem renumber_value : (filter.renumber r).value = filter.value := rfl

@[simp] theorem renumber_slot : (filter.renumber r).slot = filter.slot := rfl

@[simp] theorem renumber_text : (filter.renumber r).text = filter.text := rfl

@[simp] theorem renumber_place? : (filter.renumber r).place? = filter.place? := by
  simp [place?, renumber, Function.comp_def, Expression.renumber]

@[simp] theorem renumber_numeric : (filter.renumber r).numeric = filter.numeric := rfl

@[simp] theorem related_renumber_left (order : Number → Number → Bool) (other : Filter) :
    (filter.renumber r).related order other = filter.related order other := by
  simp only [related, renumber_numeric]

@[simp] theorem related_renumber_right (order : Number → Number → Bool) (other : Filter) :
    other.related order (filter.renumber r) = other.related order filter := by
  simp only [related, renumber_numeric]

theorem resolve_renumber {scope other : Scope} (same : other.evaluate = scope.evaluate) (key : String) (op : Comparison)
    (source : Expression) :
    resolve key op (source.renumber r) other = (resolve key op source scope).map (Filter.renumber r) := by
  simp only [resolve, Scope.evaluate_of_renumber, same]
  cases scope.evaluate source with
  | error error => rfl
  | ok text => rfl

theorem insertInto_renumber (filters : List Filter) :
    (filter.renumber r).insertInto (filters.map (Filter.renumber r)) = (filter.insertInto filters).map (Filter.renumber r) := by
  induction filters with
  | nil => rfl
  | cons head rest ih =>
    simp only [List.map_cons, insertInto, renumber_slot, ih]
    split
    · rfl
    · split
      · rfl
      · rfl

end Filter

/-- Filters stay in their order, since slots have no numbers in them. -/
def FilterSet.renumber (set : FilterSet) : FilterSet :=
  ⟨set.filters.map (Filter.renumber r), List.pairwise_map.mpr set.ordered⟩

namespace FilterSet
variable (set : FilterSet) (filter : Filter)

theorem eq_of_filters {a b : FilterSet} (same : a.filters = b.filters) : a = b := by
  cases a
  cases b
  simpa using same

@[simp] theorem renumber_filters : (set.renumber r).filters = set.filters.map (Filter.renumber r) := rfl

@[simp] theorem renumber_empty : empty.renumber r = empty := rfl

@[simp] theorem renumber_text : (set.renumber r).text = set.text := by
  simp [text, Function.comp_def]

@[simp] theorem renumber_isEmpty : (set.renumber r).isEmpty = set.isEmpty := List.isEmpty_map

@[simp] theorem get?_renumber (slot : String) : (set.renumber r).get? slot = (set.get? slot).map (Filter.renumber r) := by
  simp [get?, List.find?_map, Function.comp_def]

@[simp] theorem contains_renumber (slot : String) : (set.renumber r).contains slot = set.contains slot := by
  simp [contains]

@[simp] theorem bounds_renumber (op : Comparison) (order : Number → Number → Bool) :
    (set.renumber r).bounds op order (filter.renumber r) = set.bounds op order filter := by
  simp only [bounds, get?_renumber, Filter.renumber_key]
  cases set.get? (Filter.keySlot filter.key op) with
  | none => rfl
  | some bound => exact (Filter.related_renumber_left ..).trans (Filter.related_renumber_right ..)

@[simp] theorem excludes_renumber : (set.renumber r).excludes (filter.renumber r) = set.excludes filter := by
  simp [excludes]

@[simp] theorem judgeBound_renumber (fails : Number → Number → Bool) (contradicted implied : Bool) :
    (set.renumber r).judgeBound (filter.renumber r) fails contradicted implied =
      set.judgeBound filter fails contradicted implied := by
  simp only [judgeBound, get?_renumber, Filter.renumber_key]
  cases set.get? (Filter.keySlot filter.key .equal) with
  | none => rfl
  | some equality => simp only [Option.map_some, Filter.related_renumber_left, Filter.related_renumber_right]

/-- A verdict goes by operators and values. -/
@[simp] theorem judge_renumber : (set.renumber r).judge (filter.renumber r) = set.judge filter := by
  simp only [judge, Filter.renumber_op, Filter.renumber_key, Filter.renumber_value, Filter.renumber_slot, get?_renumber,
    excludes_renumber, contains_renumber, judgeBound_renumber, bounds_renumber]
  cases set.get? (Filter.keySlot filter.key .equal) with
  | none => rfl
  | some equality => rfl

theorem insert_renumber : (set.renumber r).insert (filter.renumber r) = (set.insert filter).renumber r :=
  eq_of_filters (Filter.insertInto_renumber r filter set.filters)

theorem restrict_renumber {keep : Filter → Bool} (blind : ∀ filter, keep (Filter.renumber r filter) = keep filter) :
    (set.renumber r).restrict keep = (set.restrict keep).renumber r := by
  refine eq_of_filters ?_
  simp only [restrict, renumber_filters, List.filter_map, Function.comp_def, blind]

theorem prune_renumber (order : Number → Number → Bool) :
    (set.renumber r).prune (filter.renumber r) order = (set.prune filter order).renumber r := by
  rw [prune, prune, ← restrict_renumber]
  · simp only [Filter.renumber_key, Filter.related_renumber_right]
  · exact fun existing => by simp only [Filter.renumber_key, Filter.renumber_op, Filter.related_renumber_left]

theorem insertBound_renumber (strict : Comparison) :
    (set.renumber r).insertBound (filter.renumber r) strict = (set.insertBound filter strict).renumber r := by
  simp only [insertBound, contains_renumber, Filter.renumber_key, Filter.renumber_value]
  split
  · rw [erase, erase, restrict_renumber r set fun _ => rfl]
    exact insert_renumber r _ { filter with op := strict }
  · exact insert_renumber r set filter

theorem add_renumber : (set.renumber r).add (filter.renumber r) = (set.add filter).renumber r := by
  simp only [add, Filter.renumber_op, Filter.renumber_key, prune_renumber]
  split
  · rw [restrict_renumber r set fun _ => rfl, insert_renumber]
  all_goals first | exact insert_renumber r _ filter | exact insertBound_renumber r _ filter _

theorem conjoin?_renumber :
    (set.renumber r).conjoin? (filter.renumber r) = (set.conjoin? filter).map (FilterSet.renumber r) := by
  simp only [conjoin?, judge_renumber, add_renumber]
  split <;> rfl

theorem addAll_renumber (filters : List Filter) :
    (filters.map (Filter.renumber r)).foldl add (set.renumber r) = (filters.foldl add set).renumber r := by
  induction filters generalizing set with
  | nil => rfl
  | cons filter rest ih => rw [List.map_cons, List.foldl_cons, List.foldl_cons, add_renumber, ih]

def Merge.renumber : Merge → Merge
  | .merged both => .merged (both.renumber r)
  | .unchanged => .unchanged
  | .conflict => .conflict

/-- Sets merge alike with other numbers, or contradict each other alike. -/
theorem merge_renumber (other : FilterSet) :
    (set.renumber r).merge (other.renumber r) = (set.merge other).renumber r := by
  have contradicted : ((other.renumber r).filters.any fun filter => decide ((set.renumber r).judge filter = .contradicts)) =
      other.filters.any fun filter => decide (set.judge filter = .contradicts) := by
    simp [Function.comp_def]
  have additions : ((other.renumber r).filters.filter fun filter => decide ((set.renumber r).judge filter = .narrows)) =
      (other.filters.filter fun filter => decide (set.judge filter = .narrows)).map (Filter.renumber r) := by
    simp [List.filter_map, Function.comp_def]
  rw [merge, merge, contradicted, additions]
  split
  · rfl
  · cases other.filters.filter fun filter => decide (set.judge filter = .narrows) with
    | nil => rfl
    | cons first rest => exact congrArg Merge.merged (addAll_renumber r set (first :: rest))

@[simp] theorem implies_renumber (other : FilterSet) : (set.renumber r).implies (other.renumber r) = set.implies other := by
  rw [implies, implies, merge_renumber]
  cases set.merge other <;> rfl

theorem reevaluateFilter_renumber (scope : Scope) :
    reevaluateFilter (scope.renumber r) (filter.renumber r) = (reevaluateFilter scope filter).map (Filter.renumber r) := by
  obtain ⟨key, op, value, source⟩ := filter
  cases source with
  | none => rfl
  | some source => exact Filter.resolve_renumber r (Scope.evaluate_renumber r scope) key op source

/-- The sources of filters have the texts that they had, and so the set that they make is the same one renumbered. -/
theorem reevaluate_renumber (scope : Scope) :
    (set.renumber r).reevaluate (scope.renumber r) = (set.reevaluate scope).map (FilterSet.renumber r) := by
  refine @foldlM_renumber _ _ _ (Filter.renumber r) (FilterSet.renumber r) _ _ (fun result filter => ?_) set.filters empty
  rw [reevaluateFilter_renumber]
  cases reevaluateFilter scope filter with
  | error error => rfl
  | ok evaluated =>
    change Except.ok _ = Except.ok _
    simp only [judge_renumber, add_renumber]
    split <;> rfl

end FilterSet
end filter
end MapStyle
