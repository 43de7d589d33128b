import Mathlib.Order.Monotone.Defs
import MapStyle.Nesting
import MapStyle.Proofs.Renumbering.Filters
/-!
Renumbering of flat stylesheets. Flattening passes numbers on and compares none of them. It asks variables for their texts
only, so that these may be numbered in another way than the stylesheet.
-/
namespace MapStyle
variable (r : Renumbering)

def Specificity.renumber (specificity : Specificity) : Specificity := { specificity with index := r.index specificity.index }

def Selector.renumber (selector : Selector) : Selector :=
  { selector with filters := selector.filters.renumber r, index := r.index selector.index }

def Definition.renumber (definition : Definition) : Definition :=
  { definition with
    filters := definition.filters.renumber r
    specificity := definition.specificity.renumber r
    declarations := definition.declarations.map (Declaration.renumber r) }

theorem Selector.combine?_renumber (selector child : Selector) :
    (selector.renumber r).combine? (child.renumber r) = (selector.combine? child).map (Selector.renumber r) := by
  have merged : (selector.renumber r).filters.merge (child.renumber r).filters =
      (selector.filters.merge child.filters).renumber r := FilterSet.merge_renumber r selector.filters child.filters
  rw [combine?, combine?, merged]
  cases selector.filters.merge child.filters with
  | conflict => rfl
  | merged filters => rfl
  | unchanged =>
    refine congrArg some ?_
    change (if selector.repeats child then _ else _) = Selector.renumber r _
    split <;> rfl

theorem Definition.ofSelector_renumber (selector : Selector) (declarations : List Declaration) :
    ofSelector (selector.renumber r) (declarations.map (Declaration.renumber r)) =
      (ofSelector selector declarations).renumber r := by
  simp only [ofSelector, renumber, List.map_map]
  rfl

theorem Nesting.ownDefinitions_renumber (selectors : List Selector) (declarations : List Declaration) :
    ownDefinitions (selectors.map (Selector.renumber r)) (declarations.map (Declaration.renumber r)) =
      (ownDefinitions selectors declarations).map (Definition.renumber r) := by
  simp only [ownDefinitions, List.map_map]
  refine List.map_congr_left fun selector _ => ?_
  cases declarations with
  | nil => exact Definition.ofSelector_renumber r selector []
  | cons first rest => exact Definition.ofSelector_renumber r { selector with index := first.index } (first :: rest)

section scope
variable {scope other : Scope} (same : other.evaluate = scope.evaluate)
include same

namespace Selector
variable (selector : Selector)

theorem resolveZoom_renumber (op : Comparison) (value : Expression) :
    resolveZoom other op (value.renumber r) = resolveZoom scope op value := by
  simp only [resolveZoom, same, Scope.evaluate_of_renumber, Expression.renumber_place]

/-- A filter in a selector is resolved at once, by the texts of the scope. -/
theorem addPart?_renumber (part : SelectorPart) :
    (selector.renumber r).addPart? other (part.renumber r) =
      (selector.addPart? scope part).map (Option.map (Selector.renumber r)) := by
  cases part with
  | element selected => rfl
  | attachment name => rfl
  | filter key op value =>
    simp only [SelectorPart.renumber, addPart?, Filter.resolve_renumber r same]
    cases Filter.resolve key op value scope with
    | error error => rfl
    | ok filter =>
      change Except.ok (((selector.filters.renumber r).conjoin? (filter.renumber r)).map _) = Except.ok _
      rw [FilterSet.conjoin?_renumber]
      cases selector.filters.conjoin? filter <;> rfl
  | zoom op value =>
    simp only [SelectorPart.renumber, addPart?, resolveZoom_renumber r same]
    cases resolveZoom scope op value <;> rfl

theorem addParts?_renumber (parts : List SelectorPart) :
    (selector.renumber r).addParts? other (parts.map (SelectorPart.renumber r)) =
      (selector.addParts? scope parts).map (Option.map (Selector.renumber r)) := by
  induction parts generalizing selector with
  | nil => rfl
  | cons part rest ih =>
    rw [List.map_cons, addParts?, addParts?, addPart?_renumber r same]
    cases selector.addPart? scope part with
    | error error => rfl
    | ok next =>
      cases next with
      | none => rfl
      | some next => exact ih next

theorem resolve?_renumber (written : WrittenSelector) :
    resolve? other (written.renumber r) = (resolve? scope written).map (Option.map (Selector.renumber r)) :=
  addParts?_renumber r same (ofPlace written.place written.index) written.parts

end Selector

namespace Nesting

theorem selectors_renumber (parents : Option (List Selector)) (written : List WrittenSelector) :
    selectors other (parents.map (List.map (Selector.renumber r))) (written.map (WrittenSelector.renumber r)) =
      (selectors scope parents written).map (List.map (Selector.renumber r)) := by
  induction written with
  | nil => rfl
  | cons written rest ih =>
    rw [List.map_cons, selectors, selectors, Selector.resolve?_renumber r same, ih]
    cases Selector.resolve? scope written with
    | error error => rfl
    | ok resolved =>
      cases selectors scope parents rest with
      | error error => rfl
      | ok others =>
        refine congrArg Except.ok ?_
        rw [List.map_append]
        refine congrArg (· ++ _) ?_
        cases resolved with
        | none => rfl
        | some child =>
          cases parents with
          | none => rfl
          | some parents =>
            simp only [Option.map_some, List.filterMap_map, List.map_filterMap, Function.comp_def, Selector.combine?_renumber]

end Nesting
end scope

variable {scope other : Scope}

namespace Nesting

mutual
theorem flatten_renumber (same : other.evaluate = scope.evaluate) (parents : Option (List Selector)) (ruleset : Ruleset) :
    flatten other (parents.map (List.map (Selector.renumber r))) (ruleset.renumber r) =
      (flatten scope parents ruleset).map (List.map (Definition.renumber r)) := by
  obtain ⟨written, declarations, children, place⟩ := ruleset
  rw [Ruleset.renumber, flatten, flatten, selectors_renumber r same]
  cases selectors scope parents written with
  | error error => rfl
  | ok selectors =>
    have nested : flattenAll other (some (selectors.map (Selector.renumber r))) (Ruleset.renumberAll r children) =
        (flattenAll scope (some selectors) children).map (List.map (Definition.renumber r)) :=
      flattenAll_renumber same (some selectors) children
    change (flattenAll _ (some (selectors.map (Selector.renumber r))) _ >>= fun nested => Except.ok (nested ++ _)) =
      (flattenAll scope (some selectors) children >>= fun nested =>
        Except.ok (nested ++ ownDefinitions selectors declarations)).map _
    rw [nested, ownDefinitions_renumber]
    cases flattenAll scope (some selectors) children with
    | error error => rfl
    | ok definitions => exact congrArg Except.ok List.map_append.symm

theorem flattenAll_renumber (same : other.evaluate = scope.evaluate) (parents : Option (List Selector)) (rulesets : List Ruleset) :
    flattenAll other (parents.map (List.map (Selector.renumber r))) (Ruleset.renumberAll r rulesets) =
      (flattenAll scope parents rulesets).map (List.map (Definition.renumber r)) := by
  cases rulesets with
  | nil => rfl
  | cons ruleset rest =>
    rw [Ruleset.renumberAll, flattenAll, flattenAll, flatten_renumber same parents ruleset, flattenAll_renumber same parents rest]
    cases flatten scope parents ruleset with
    | error error => rfl
    | ok here =>
      cases flattenAll scope parents rest with
      | error error => rfl
      | ok others => exact congrArg Except.ok List.map_append.symm
end

end Nesting

/-- A renumbered sheet flattens to the renumbered definitions, or fails as the sheet does. -/
theorem Sheet.definitions_renumber (same : other.evaluate = scope.evaluate) (sheet : Sheet) :
    (sheet.renumber r).definitions other = (sheet.definitions scope).map (List.map (Definition.renumber r)) :=
  Nesting.flattenAll_renumber r same none sheet.rulesets

end MapStyle
