import MapStyle.Proofs.Cascade.Run
/-!
Inheritance without filters. Every definition sees all features, so that it takes over the declarations of all that
follow it in its attachment, and nothing is split or copied.
-/
namespace MapStyle

namespace FilterSet

theorem merge_empty : empty.merge empty = .unchanged := rfl

theorem implies_empty : empty.implies empty := rfl

theorem reevaluate_empty (scope : Scope) : empty.reevaluate scope = .ok empty := rfl

end FilterSet

namespace Inheritance
variable {work : Work} {definition incoming : Definition} {later : List Definition}

theorem extend_push (declarations : List Declaration) : (work.push definition).extend work.arena.size declarations =
    work.push (definition.addDeclarations declarations) := by
  have same : ((work.push definition).extend work.arena.size declarations).arena =
      (work.push (definition.addDeclarations declarations)).arena := by
    refine Array.ext_getElem? fun member => ?_
    rw [Work.arena_extend, Work.arena_push, Work.arena_push, Array.getElem?_push, Array.getElem?_push]
    by_cases last : member = work.arena.size
    · simp [last]
    · simp [last, Ne.symm last]
  exact congrArg (Work.mk · work.index work.placed) same

theorem visit_fresh (range : InRange work) (unfiltered : definition.filters = FilterSet.empty)
    (alike : incoming.filters = FilterSet.empty) : visit incoming (work.push definition) work.arena.size =
      (work.push (definition.addDeclarations incoming.declarations), [work.arena.size]) := by
  have found : (work.push definition).arena[work.arena.size]? = some definition := by simp
  have isNew : (work.push definition).find? incoming.attachment definition.filters.text ≠ some work.arena.size :=
    range.find?_ne
  simp only [visit, found, unfiltered, alike, FilterSet.merge_empty]
  rw [unfiltered] at isNew
  rw [absorb, unfiltered, if_neg isNew, extend_push]

/-- A pass over definitions without filters extends its member by all their declarations. -/
theorem pass_fresh (range : InRange work) (unfiltered : definition.filters = FilterSet.empty)
    (alike : ∀ other ∈ later, other.filters = FilterSet.empty) :
    pass (work.push definition) [work.arena.size] later =
      (work.push (definition.addDeclarations (later.flatMap Definition.declarations)), [work.arena.size]) := by
  induction later generalizing definition with
  | nil => rfl
  | cons incoming rest ih =>
    obtain ⟨here, others⟩ := List.forall_mem_cons.mp alike
    have turn : visitAll incoming (work.push definition) [work.arena.size] =
        (work.push (definition.addDeclarations incoming.declarations), [work.arena.size]) := by
      simp only [visitAll, visit_fresh range unfiltered here, List.append_nil]
    simp only [pass, turn]
    rw [ih (by rw [Definition.addDeclarations_filters, unfiltered]) others, List.flatMap_cons]
    simp only [Definition.addDeclarations, List.foldl_append]

/-- A definition with the declarations of all that follow it in its attachment. -/
def completed (definition : Definition) (later : List Definition) : Definition :=
  definition.addDeclarations ((followers definition later).flatMap Definition.declarations)

def completedAll : List Definition → List Definition
  | [] => []
  | definition :: later => completed definition later :: completedAll later

@[simp] theorem completed_attachment : (completed definition later).attachment = definition.attachment :=
  Definition.addDeclarations_attachment ..

@[simp] theorem completed_filters : (completed definition later).filters = definition.filters :=
  Definition.addDeclarations_filters ..

/-- A definition takes over the declarations of all behind it that share its attachment. -/
theorem completed_declarations (alike : ∀ other ∈ later, other.attachment = definition.attachment) :
    (completed definition later).declarations =
      Declaration.joined definition.declarations (later.flatMap Definition.declarations) := by
  have follow : followers definition later = later :=
    List.filter_eq_self.mpr fun other inLater => by simp [alike other inLater]
  rw [completed, follow, Definition.addDeclarations_declarations]

theorem step_fresh (range : InRange work) (unfiltered : definition.filters = FilterSet.empty)
    (alike : ∀ other ∈ later, other.filters = FilterSet.empty) :
    step work definition later = ((work.push (completed definition later)).place definition.attachment work.arena.size) := by
  rw [step_eq, passed, pass_fresh range unfiltered fun other follows => alike other (mem_followers.mp follows).1]
  rfl

def Work.definitionsFor (work : Work) (attachment : String) : List Definition :=
  (work.placedFor attachment).filterMap fun member => work.arena[member]?

theorem place_fresh (range : InRange work) (own : String) :
    InRange ((work.push definition).place own work.arena.size) ∧
    ((work.push definition).place own work.arena.size).placed = (own, work.arena.size) :: work.placed ∧
    ∀ attachment, ((work.push definition).place own work.arena.size).definitionsFor attachment =
      work.definitionsFor attachment ++ if own = attachment then [definition] else [] := by
  have placing := place_eq own (show (work.push definition).arena[work.arena.size]? = some definition by simp)
  refine ⟨(range.push definition).place own _, ?_⟩
  rw [placing]
  refine ⟨rfl, fun attachment => ?_⟩
  -- what was placed stays where it was in the arena
  have older : (work.placedFor attachment).filterMap (fun member => (work.push definition).arena[member]?) =
      (work.placedFor attachment).filterMap fun member => work.arena[member]? := by
    refine List.filterMap_congr fun member isPlaced => ?_
    obtain ⟨entry, isEntry, rfl⟩ := List.mem_map.mp isPlaced
    have inside := range.placed entry (List.mem_reverse.mp (List.mem_filter.mp isEntry).1)
    rw [Work.arena_push, Array.getElem?_push, if_neg (Nat.ne_of_lt inside)]
  rw [Work.definitionsFor, @placedFor_append _ _ _ own [work.arena.size] rfl, List.filterMap_append]
  refine congrArg₂ _ older ?_
  by_cases same : own = attachment <;> simp [same]

/-- Without filters, the style of an attachment holds its definitions, each completed by those behind it. -/
theorem resolveFrom_fresh (range : InRange work) {definitions : List Definition}
    (unfiltered : ∀ definition ∈ definitions, definition.filters = FilterSet.empty) (attachment : String) :
    (resolveFrom work definitions).definitionsFor attachment = work.definitionsFor attachment ++
      (completedAll definitions).filter fun definition => definition.attachment == attachment := by
  induction definitions generalizing work with
  | nil => simp [resolveFrom, completedAll]
  | cons definition later ih =>
    obtain ⟨here, others⟩ := List.forall_mem_cons.mp unfiltered
    obtain ⟨stillInRange, -, placed⟩ := @place_fresh _ (completed definition later) range definition.attachment
    rw [resolveFrom, step_fresh range here others, ih stillInRange others, placed]
    by_cases own : definition.attachment = attachment <;> simp [completedAll, own]

theorem resolveFrom_attachments (range : InRange work) {definitions : List Definition}
    (unfiltered : ∀ definition ∈ definitions, definition.filters = FilterSet.empty) :
    (resolveFrom work definitions).placed.reverse.map Prod.fst =
      work.placed.reverse.map Prod.fst ++ definitions.map Definition.attachment := by
  induction definitions generalizing work with
  | nil => simp [resolveFrom]
  | cons definition later ih =>
    obtain ⟨here, others⟩ := List.forall_mem_cons.mp unfiltered
    obtain ⟨stillInRange, placed, -⟩ := @place_fresh _ (completed definition later) range definition.attachment
    rw [resolveFrom, step_fresh range here others, ih stillInRange others, placed]
    simp

theorem completedAll_filters {definitions : List Definition}
    (unfiltered : ∀ definition ∈ definitions, definition.filters = FilterSet.empty) :
    ∀ definition ∈ completedAll definitions, definition.filters = FilterSet.empty := by
  induction definitions with
  | nil => simp [completedAll]
  | cons definition later ih =>
    obtain ⟨here, others⟩ := List.forall_mem_cons.mp unfiltered
    exact List.forall_mem_cons.mpr ⟨completed_filters.trans here, ih others⟩

theorem completedAll_attachment {definitions : List Definition} {attachment : String}
    (alike : ∀ definition ∈ definitions, definition.attachment = attachment) :
    ∀ definition ∈ completedAll definitions, definition.attachment = attachment := by
  induction definitions with
  | nil => simp [completedAll]
  | cons definition later ih =>
    obtain ⟨here, others⟩ := List.forall_mem_cons.mp alike
    exact List.forall_mem_cons.mpr ⟨completed_attachment.trans here, ih others⟩

end Inheritance

namespace Style
open Inheritance

theorem ofWork_filter (work : Work) (attachment : String) :
    (ofWork work).filter (fun style => style.attachment == attachment) =
      if attachment ∈ work.placed.reverse.map Prod.fst then [⟨attachment, work.definitionsFor attachment⟩] else [] := by
  have definitions : ∀ name, ((work.placed.reverse.filter fun entry => entry.1 == name).filterMap fun entry =>
      work.arena[entry.2]?) = work.definitionsFor name := by
    intro name
    rw [Work.definitionsFor, Work.placedFor, List.filterMap_map]
    rfl
  simp only [ofWork, definitions, List.filter_map]
  have named : (work.placed.reverse.map Prod.fst).eraseDups.filter (· == attachment) =
      if attachment ∈ work.placed.reverse.map Prod.fst then [attachment] else [] := by
    rw [List.filter_beq, (nodup_eraseDups _).count]
    simp only [List.mem_eraseDups]
    split <;> simp
  refine (congrArg _ named).trans ?_
  split <;> rfl

theorem evaluateFilters_unfiltered (scope : Scope) {definition : Definition} (unfiltered : definition.filters = FilterSet.empty) :
    evaluateFilters scope definition = .ok definition := by
  have same : { definition with filters := FilterSet.empty } = definition := by rw [← unfiltered]
  rw [evaluateFilters, unfiltered, FilterSet.reevaluate_empty]
  exact congrArg Except.ok same

theorem mapM_evaluateFilters_unfiltered (scope : Scope) {definitions : List Definition}
    (unfiltered : ∀ definition ∈ definitions, definition.filters = FilterSet.empty) :
    definitions.mapM (evaluateFilters scope) = .ok definitions := by
  induction definitions with
  | nil => rfl
  | cons definition later ih =>
    obtain ⟨here, others⟩ := List.forall_mem_cons.mp unfiltered
    rw [List.mapM_cons, evaluateFilters_unfiltered scope here, ih others]
    rfl

theorem inherit_unfiltered {scope : Scope} {definitions : List Definition} {styles : List Style}
    (unfiltered : ∀ definition ∈ definitions, definition.filters = FilterSet.empty)
    (inherited : inherit scope definitions = .ok styles) (attachment : String) :
    styles.filter (fun style => style.attachment == attachment) =
      if attachment ∈ definitions.map Definition.attachment then
        [⟨attachment, (completedAll definitions).filter fun definition => definition.attachment == attachment⟩]
      else [] := by
  have evaluated := mapM_evaluateFilters_unfiltered scope unfiltered
  rw [inherit, evaluated] at inherited
  obtain rfl := Except.ok.inj inherited
  rw [ofWork_filter, resolve, resolveFrom_attachments inRange_empty unfiltered, resolveFrom_fresh inRange_empty unfiltered]
  rfl

theorem fold_first_unfiltered {style : Style}
    (unfiltered : ∀ definition ∈ style.definitions, definition.filters = FilterSet.empty) :
    (style.fold .first).definitions = style.definitions.take 1 := by
  -- once one definition is kept, it covers all that follow
  have covered : ∀ (kept definitions : List Definition), kept ≠ [] →
      (∀ definition ∈ kept ++ definitions, definition.filters = FilterSet.empty) → foldFrom kept definitions = [] := by
    intro kept definitions
    induction definitions with
    | nil => exact fun _ _ => rfl
    | cons definition later ih =>
      intro nonempty alike
      obtain ⟨first, others, rfl⟩ := List.exists_cons_of_ne_nil nonempty
      have covering : (first :: others).any fun earlier => covers earlier definition := by
        have isFirst := alike first (by simp)
        have isHere := alike definition (by simp)
        simp [covers, isFirst, isHere, FilterSet.implies_empty]
      rw [foldFrom, if_pos covering]
      exact ih nonempty fun other inside => alike other (by simp at inside ⊢; tauto)
  cases same : style.definitions with
  | nil => simp [fold, same, foldFrom]
  | cons first later =>
    rw [same] at unfiltered
    simp [fold, same, foldFrom, covered [first] later (by simp) (by simpa using unfiltered)]

end Style
end MapStyle
