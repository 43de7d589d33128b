import MapStyle.Cascade.Style
import MapStyle.Proofs.Cascade.Arena
import MapStyle.Proofs.Renumbering.Flattening
import MapStyle.Proofs.Renumbering.Order
/-!
Renumbering of the cascade. Inheritance does not look at numbers at all; styles are put in the order of their numbers, but
for those without declarations, which have none.
-/
namespace MapStyle

section definition
variable (r : Renumbering)

/-- Where all else is equal the source index decides, so that only the order of the indexes counts. -/
theorem Specificity.atLeast_renumber (mono : StrictMono r.index) (a b : Specificity) :
    (a.renumber r).atLeast (b.renumber r) = a.atLeast b := by
  have same : (r.index b.index == r.index a.index) = (b.index == a.index) :=
    Bool.eq_iff_iff.mpr (by simp [mono.injective.eq_iff])
  simp [atLeast, fields, fieldsLe, renumber, mono.lt_iff_lt, same]

namespace Definition
variable (definition : Definition)

@[simp] theorem renumber_attachment : (definition.renumber r).attachment = definition.attachment := rfl

@[simp] theorem renumber_filters : (definition.renumber r).filters = definition.filters.renumber r := rfl

@[simp] theorem renumber_declarations :
    (definition.renumber r).declarations = definition.declarations.map (Declaration.renumber r) := rfl

theorem addDeclaration_renumber (declaration : Declaration) :
    (definition.renumber r).addDeclaration (declaration.renumber r) = (definition.addDeclaration declaration).renumber r := by
  have declared : (definition.renumber r).declares (declaration.renumber r).id = definition.declares declaration.id := by
    simp only [declares, renumber, List.any_map]
    rfl
  rw [addDeclaration, addDeclaration, declared]
  split
  · rfl
  · simp [renumber]

theorem addDeclarations_renumber (declarations : List Declaration) :
    (definition.renumber r).addDeclarations (declarations.map (Declaration.renumber r)) =
      (definition.addDeclarations declarations).renumber r := by
  induction declarations generalizing definition with
  | nil => rfl
  | cons declaration rest ih =>
    rw [addDeclarations, List.map_cons, List.foldl_cons, addDeclaration_renumber]
    exact ih (definition.addDeclaration declaration)

theorem minIndex?_renumber (mono : StrictMono r.index) :
    (definition.renumber r).minIndex? = definition.minIndex?.map r.index := by
  rw [minIndex?, minIndex?, ← min?_map mono.monotone]
  simp only [renumber, List.map_map]
  rfl

theorem cascade_renumber (mono : StrictMono r.index) (definitions : List Definition) :
    cascade (definitions.map (renumber r)) = (cascade definitions).map (renumber r) :=
  (List.map_mergeSort fun a _ b _ => (Specificity.atLeast_renumber r mono a.specificity b.specificity).symm).symm

theorem applicable_renumber (definitions : List Definition) (layer : String) (classes : List String) :
    applicable (definitions.map (renumber r)) layer classes = (applicable definitions layer classes).map (renumber r) :=
  List.filter_map

end Definition
end definition

namespace Inheritance
variable (r : Renumbering)

/-- The index of a work leads from texts to positions, neither of which has a number in it. -/
def Work.renumber (work : Work) : Work := { work with arena := work.arena.map (Definition.renumber r) }

namespace Work
variable (work : Work) (member : Nat)

theorem arena_renumber : (work.renumber r).arena[member]? = (work.arena[member]?).map (Definition.renumber r) :=
  Array.getElem?_map

@[simp] theorem renumber_empty : empty.renumber r = empty := by simp [renumber, empty]

@[simp] theorem size_renumber : (work.renumber r).arena.size = work.arena.size := Array.size_map

@[simp] theorem find?_renumber (attachment filters : String) :
    (work.renumber r).find? attachment filters = work.find? attachment filters := rfl

theorem push_renumber (definition : Definition) :
    (work.renumber r).push (definition.renumber r) = (work.push definition).renumber r := by
  simp [push, renumber]

theorem extend_renumber (declarations : List Declaration) :
    (work.renumber r).extend member (declarations.map (Declaration.renumber r)) =
      (work.extend member declarations).renumber r := by
  have arena : ((work.renumber r).extend member (declarations.map (Declaration.renumber r))).arena =
      ((work.extend member declarations).renumber r).arena := by
    refine Array.ext_getElem? fun other => ?_
    rw [arena_extend, arena_renumber, arena_renumber, arena_extend, Option.map_map, Option.map_map]
    refine congrArg (Option.map · _) (funext fun definition => ?_)
    simp only [Function.comp_apply]
    split
    · exact Definition.addDeclarations_renumber r definition declarations
    · rfl
  simpa [extend, renumber] using arena

theorem place_renumber (attachment : String) :
    (work.renumber r).place attachment member = (work.place attachment member).renumber r := by
  rw [place, place, arena_renumber]
  cases work.arena[member]? with
  | none => rfl
  | some definition => simp [register, renumber, Definition.renumber]

end Work

/-- A work that is renumbered, with what else a turn gives. -/
def renumberFst (outcome : Work × List Nat) : Work × List Nat := (outcome.1.renumber r, outcome.2)

variable (incoming definition : Definition) (work : Work) (member : Nat)

theorem split_renumber (filters : FilterSet) :
    split (incoming.renumber r) (work.renumber r) member (definition.renumber r) (filters.renumber r) =
      renumberFst r (split incoming work member definition filters) := by
  have copied : ({ definition.renumber r with filters := filters.renumber r } : Definition).addDeclarations
      (incoming.renumber r).declarations = ({ definition with filters }.addDeclarations incoming.declarations).renumber r :=
    Definition.addDeclarations_renumber r { definition with filters } incoming.declarations
  rw [split, split]
  dsimp only
  rw [copied]
  simp only [Work.find?_renumber, Definition.renumber_attachment, FilterSet.renumber_text, Definition.renumber_declarations,
    List.length_map, Work.push_renumber, Work.size_renumber, Work.extend_renumber]
  cases work.find? incoming.attachment filters.text with
  | some known => rfl
  | none => dsimp only; split <;> rfl

theorem absorb_renumber :
    absorb (incoming.renumber r) (work.renumber r) member (definition.renumber r) =
      renumberFst r (absorb incoming work member definition) := by
  simp only [absorb, Work.find?_renumber, Definition.renumber_attachment, Definition.renumber_filters,
    FilterSet.renumber_text, Definition.renumber_declarations, Definition.addDeclarations_renumber, Work.push_renumber,
    Work.extend_renumber, Work.size_renumber]
  split <;> rfl

theorem visit_renumber :
    visit (incoming.renumber r) (work.renumber r) member = renumberFst r (visit incoming work member) := by
  rw [visit, visit, Work.arena_renumber]
  cases work.arena[member]? with
  | none => rfl
  | some definition =>
    have merged : (definition.renumber r).filters.merge (incoming.renumber r).filters =
        (definition.filters.merge incoming.filters).renumber r := FilterSet.merge_renumber r definition.filters incoming.filters
    simp only [Option.map_some, merged]
    cases definition.filters.merge incoming.filters with
    | merged filters => exact split_renumber r incoming definition work member filters
    | unchanged => exact absorb_renumber r incoming definition work member
    | conflict => rfl

theorem visitAll_renumber (members : List Nat) :
    visitAll (incoming.renumber r) (work.renumber r) members = renumberFst r (visitAll incoming work members) := by
  induction members generalizing work with
  | nil => rfl
  | cons member rest ih => simp only [visitAll, visit_renumber, renumberFst, ih]

theorem pass_renumber (members : List Nat) (later : List Definition) :
    pass (work.renumber r) members (later.map (Definition.renumber r)) = renumberFst r (pass work members later) := by
  induction later generalizing work members with
  | nil => rfl
  | cons incoming rest ih => simp only [List.map_cons, pass, visitAll_renumber, renumberFst, ih]

theorem placeAll_renumber (attachment : String) (members : List Nat) :
    members.foldl (fun work member => work.place attachment member) (work.renumber r) =
      (members.foldl (fun work member => work.place attachment member) work).renumber r := by
  induction members generalizing work with
  | nil => rfl
  | cons member rest ih => rw [List.foldl_cons, List.foldl_cons, Work.place_renumber, ih]

theorem step_renumber (later : List Definition) :
    step (work.renumber r) (definition.renumber r) (later.map (Definition.renumber r)) =
      (step work definition later).renumber r := by
  have followers : (later.map (Definition.renumber r)).filter (fun other => other.attachment == definition.attachment) =
      (later.filter fun other => other.attachment == definition.attachment).map (Definition.renumber r) := List.filter_map
  simp only [step, Definition.renumber_attachment, followers, Work.push_renumber, Work.size_renumber, pass_renumber]
  exact placeAll_renumber r _ _ _

theorem resolveFrom_renumber (definitions : List Definition) :
    resolveFrom (work.renumber r) (definitions.map (Definition.renumber r)) = (resolveFrom work definitions).renumber r := by
  induction definitions generalizing work with
  | nil => rfl
  | cons definition later ih => rw [List.map_cons, resolveFrom, resolveFrom, step_renumber, ih]

/-- Inheritance decides by filters, and by ids, which hold names and levels only. -/
theorem resolve_renumber (definitions : List Definition) :
    resolve (definitions.map (Definition.renumber r)) = (resolve definitions).renumber r := by
  rw [resolve, resolve, ← resolveFrom_renumber, Work.renumber_empty]

end Inheritance

section style
variable (r : Renumbering)

def Style.renumber (style : Style) : Style := { style with definitions := style.definitions.map (Definition.renumber r) }

namespace Style
variable (style : Style)

theorem ofWork_renumber (work : Inheritance.Work) : ofWork (work.renumber r) = (ofWork work).map (renumber r) := by
  simp only [ofWork, List.map_map]
  refine List.map_congr_left fun attachment _ => ?_
  simp only [Function.comp_apply, renumber, List.map_filterMap, Inheritance.Work.arena_renumber]
  rfl

theorem evaluateFilters_renumber (scope : Scope) (definition : Definition) :
    evaluateFilters (scope.renumber r) (definition.renumber r) =
      (evaluateFilters scope definition).map (Definition.renumber r) := by
  rw [evaluateFilters, evaluateFilters, Definition.renumber_filters, FilterSet.reevaluate_renumber]
  cases definition.filters.reevaluate scope <;> rfl

theorem inherit_renumber (scope : Scope) (definitions : List Definition) :
    inherit (scope.renumber r) (definitions.map (Definition.renumber r)) =
      (inherit scope definitions).map (List.map (renumber r)) := by
  have evaluated : (definitions.map (Definition.renumber r)).mapM (evaluateFilters (scope.renumber r)) =
      (definitions.mapM (evaluateFilters scope)).map (List.map (Definition.renumber r)) := by
    induction definitions with
    | nil => rfl
    | cons definition rest ih =>
      rw [List.map_cons, List.mapM_cons, List.mapM_cons, evaluateFilters_renumber, ih]
      cases evaluateFilters scope definition with
      | error error => rfl
      | ok first => cases rest.mapM (evaluateFilters scope) <;> rfl
  rw [inherit, inherit, evaluated]
  cases definitions.mapM (evaluateFilters scope) with
  | error error => rfl
  | ok originals =>
    exact congrArg Except.ok ((congrArg ofWork (Inheritance.resolve_renumber r originals)).trans (ofWork_renumber r _))

theorem flatMap_declarations_renumber (definitions : List Definition) :
    (definitions.map (Definition.renumber r)).flatMap Definition.declarations =
      (definitions.flatMap Definition.declarations).map (Declaration.renumber r) := by
  simp only [List.flatMap_map, List.map_flatMap, Definition.renumber_declarations]

theorem modeDeclaration?_renumber :
    (style.renumber r).modeDeclaration? = style.modeDeclaration?.map (Declaration.renumber r) := by
  rw [modeDeclaration?, modeDeclaration?, renumber, flatMap_declarations_renumber, List.find?_map]
  rfl

theorem foldFrom_renumber (kept definitions : List Definition) :
    foldFrom (kept.map (Definition.renumber r)) (definitions.map (Definition.renumber r)) =
      (foldFrom kept definitions).map (Definition.renumber r) := by
  induction definitions generalizing kept with
  | nil => rfl
  | cons definition rest ih =>
    have covered : (kept.map (Definition.renumber r)).any (fun earlier => covers earlier (definition.renumber r)) =
        kept.any fun earlier => covers earlier definition := by
      simp [covers, Function.comp_def]
    rw [List.map_cons, foldFrom, foldFrom, covered, ih]
    split
    · rfl
    · rw [List.map_cons, ← ih, List.map_append]
      rfl

theorem fold_renumber (mode : FilterMode) : (style.renumber r).fold mode = (style.fold mode).renumber r := by
  cases mode with
  | all => rfl
  | first => exact congrArg (Style.mk style.attachment) (foldFrom_renumber r [] style.definitions)

/-- Whether a style declares anything. -/
def declares (style : Style) : Bool := style.definitions.any fun definition => !definition.declarations.isEmpty

/-- The index of a style without declarations is `noIndex`, whatever the numbers are. -/
theorem index_renumber (mono : StrictMono r.index) (declaring : style.declares) : (style.renumber r).index = r.index style.index := by
  have moved : (style.renumber r).definitions.filterMap Definition.minIndex? =
      (style.definitions.filterMap Definition.minIndex?).map r.index := by
    simp only [renumber, List.filterMap_map, List.map_filterMap, Function.comp_def, Definition.minIndex?_renumber r _ mono]
  rw [index, index, moved, min?_map mono.monotone]
  cases least : (style.definitions.filterMap Definition.minIndex?).min? with
  | some first => rfl
  | none =>
    obtain ⟨definition, isPart, declares⟩ := List.any_eq_true.mp declaring
    have isNone := List.filterMap_eq_nil_iff.mp (List.min?_eq_none_iff.mp least) definition isPart
    simp [Definition.minIndex?, List.min?_eq_none_iff] at isNone
    simp [isNone] at declares

/-- Styles without declarations may come in other places, but do not count: they have no rules. -/
theorem sort_renumber (mono : StrictMono r.index) (styles : List Style) :
    (sort (styles.map (renumber r))).filter declares = ((sort styles).filter declares).map (renumber r) := by
  refine MapStyle.sort_renumber mono (fun style => ?_) (fun style => index_renumber r style mono) styles
  simp [declares, renumber, Function.comp_def]

end Style
end style
end MapStyle
