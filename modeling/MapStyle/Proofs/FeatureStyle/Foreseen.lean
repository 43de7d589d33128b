import MapStyle.FeatureStyle.Basic
import MapStyle.Proofs.Cascade.Folding
import MapStyle.Proofs.Cascade.Growth
import MapStyle.Proofs.Cascade.Origin
import MapStyle.Proofs.Task.Foreseen
/-!
What the cascade of a layer asks for. It asks for the values of declarations only, and for the fonts of those that name
fonts; so where these are registered beforehand, nothing unforeseen is asked.
-/
namespace MapStyle

/-- Whether a declaration may be asked for its value, and, if it names fonts, for these. -/
structure Foresight.Covers (foresight : Foresight) (declaration : Declaration) : Prop where
  asked : foresight.asked declaration.value
  fonts : Renderer.namesFonts declaration.property → ∀ faces, foresight.scope.evaluate declaration.value = .ok faces →
    (foresight.fonts.find? faces).isSome

variable {foresight : Foresight} {known : Declaration → Prop}

namespace Group

def Declare (known : Declaration → Prop) (groups : List Group) : Prop :=
  ∀ group ∈ groups, ∀ declaration ∈ group.declarations, known declaration

theorem add?_declare {declaration : Declaration} (isKnown : known declaration) {kind : Kind} {groups later : List Group}
    (declare : Declare known groups) (added : add? declaration kind groups = some later) : Declare known later := by
  induction groups generalizing later with
  | nil =>
    obtain rfl := Option.some.inj added
    simpa [Declare] using isKnown
  | cons group rest ih =>
    obtain ⟨declareHere, declareRest⟩ := List.forall_mem_cons.mp declare
    rw [add?] at added
    split at added
    · split at added
      · cases added
      · obtain rfl := Option.some.inj added
        rw [Declare, List.forall_mem_cons]
        constructor
        · exact List.forall_mem_append.mpr ⟨declareHere, List.forall_mem_singleton.mpr isKnown⟩
        · exact declareRest
    · obtain ⟨others, addedRest, rfl⟩ := Option.map_eq_some_iff.mp added
      exact List.forall_mem_cons.mpr ⟨declareHere, ih declareRest addedRest⟩

end Group

namespace Slice
variable (target : String → Option Target) {declarations : List Declaration}
  (allKnown : ∀ declaration ∈ declarations, known declaration)
include allKnown

theorem collect_declare {groups : List Group} (declare : Group.Declare known groups) (levels : Zoom) :
    Group.Declare known (collect target groups levels declarations).1 := by
  induction declarations generalizing groups levels with
  | nil => exact declare
  | cons declaration rest ih =>
    obtain ⟨knownHere, knownRest⟩ := List.forall_mem_cons.mp allKnown
    rw [collect]
    split
    · split
      · split
        · rename_i later added
          exact ih knownRest (Group.add?_declare knownHere declare added) _
        · exact ih knownRest declare _
      · exact ih knownRest declare _
    · exact ih knownRest declare _

theorem take_declare (lead : Declaration) (wanted available : Zoom) :
    ∀ slice ∈ (take target lead declarations wanted available).1, Group.Declare known slice.groups := by
  fun_induction take target lead declarations wanted available with
  | case1 => simp
  | case2 => simp
  | case3 available nonempty found _ others ih =>
    rw [List.forall_mem_cons]
    exact ⟨collect_declare target allKnown (by simp [Group.Declare]) _, ih⟩

theorem cut_declare (remaining available : Zoom) :
    ∀ slice ∈ cut target remaining available declarations, Group.Declare known slice.groups := by
  fun_induction cut target remaining available declarations with
  | case1 => simp
  | case2 remaining available lead rest _ ih => exact ih (List.forall_mem_cons.mp allKnown).2
  | case3 remaining available lead rest _ taken ih =>
    rw [List.forall_mem_append]
    exact ⟨take_declare target allKnown _ _ _, ih (List.forall_mem_cons.mp allKnown).2⟩

end Slice

section rules
variable (context : Context)

namespace Group

/-- The fonts that the properties of a covered group name are registered. -/
theorem properties_foreseen (kind : Kind) {declarations : List Declaration}
    (covers : ∀ declaration ∈ declarations, foresight.Covers declaration) :
    Job.Foreseen foresight (properties context kind declarations) fun properties =>
      ∀ property ∈ properties, Renderer.namesFonts property.name → (foresight.fonts.find? property.value).isSome := by
  induction declarations with
  | nil => exact .pure (by simp)
  | cons declaration rest ih =>
    obtain ⟨coversHere, coversRest⟩ := List.forall_mem_cons.mp covers
    unfold properties
    split
    · apply Job.Foreseen.bind (.value coversHere.asked)
      intro text evaluated
      apply Job.Foreseen.bind (ih coversRest)
      intro others registered
      apply Job.Foreseen.pure
      rw [List.forall_mem_cons]
      exact ⟨fun names => coversHere.fonts names text evaluated, registered⟩
    · exact .throw _

theorem registerFonts_foreseen {properties : List Property} (registered : ∀ property ∈ properties,
      Renderer.namesFonts property.name → (foresight.fonts.find? property.value).isSome) (symbolizer : Symbolizer) :
    Job.Foreseen foresight (registerFonts context properties symbolizer) fun _ => True := by
  unfold registerFonts
  split
  · rename_i property found
    have names := List.find?_some found
    have isRegistered := registered property (List.mem_of_find?_eq_some found) names
    split
    · exact .bind (.fontSet isRegistered) fun _ _ => .pure trivial
    · exact .pure trivial
  · exact .pure trivial

theorem symbolizer?_foreseen {group : Group} (covers : ∀ declaration ∈ group.declarations, foresight.Covers declaration) :
    Job.Foreseen foresight (symbolizer? context group) fun _ => True := by
  unfold symbolizer?
  split
  · exact .pure trivial
  · apply Job.Foreseen.bind (properties_foreseen context group.kind covers)
    intro properties registered
    split
    · exact .throw _
    · apply Job.Foreseen.bind (.ofExcept _)
      intro built _
      exact .bind (registerFonts_foreseen context registered built) fun _ _ => .pure trivial

theorem inOrder_foreseen {groups : List Group} (declare : Declare foresight.Covers groups) :
    Job.Foreseen foresight (inOrder context groups) fun _ => True := by
  induction groups with
  | nil => exact .pure trivial
  | cons group rest ih =>
    obtain ⟨covers, coversRest⟩ := List.forall_mem_cons.mp declare
    exact .bind (symbolizer?_foreseen context covers) fun _ _ => .bind (ih coversRest) fun _ _ => .pure trivial

theorem symbolizers_foreseen {groups : List Group} (declare : Declare foresight.Covers groups) :
    Job.Foreseen foresight (symbolizers context groups) fun _ => True := by
  have sorted : Declare foresight.Covers (sort groups) :=
    fun group member => declare group ((List.mergeSort_perm _ _).mem_iff.mp member)
  exact .bind (inOrder_foreseen context sorted) fun _ _ => .pure trivial

end Group

namespace Rule

theorem ofSlices_foreseen (filter : Option String) (remaining : Zoom) {slices : List Slice}
    (declare : ∀ slice ∈ slices, Group.Declare foresight.Covers slice.groups) :
    ∃ result, Task.Foreseen foresight (ofSlices context filter remaining slices) result := by
  induction slices generalizing remaining with
  | nil => exact ⟨_, .done _⟩
  | cons slice rest ih =>
    obtain ⟨declareHere, declareRest⟩ := List.forall_mem_cons.mp declare
    rw [ofSlices]
    dsimp only
    split
    · exact ih remaining declareRest
    · obtain ⟨built, ran, -⟩ := Group.symbolizers_foreseen context declareHere
      -- a failure ends the work on the slices, so that nothing more is asked
      cases built with
      | error error => exact ⟨_, ran.bind (.done _)⟩
      | ok symbolizers =>
        obtain ⟨others, ranRest⟩ := ih (remaining.diff slice.levels) declareRest
        exact ⟨_, ran.bind (ranRest.bind (.done _))⟩

theorem ofDefinition_foreseen {definition : Definition} (remaining : Remaining)
    (covers : ∀ declaration ∈ definition.declarations, foresight.Covers declaration) :
    ∃ outcome, Task.Foreseen foresight (ofDefinition context definition remaining) outcome := by
  unfold ofDefinition
  dsimp only
  split
  · exact ⟨_, .done _⟩
  · split
    · exact ⟨_, .done _⟩
    · rename_i filter _
      have declare := Slice.cut_declare context.renderer.target? covers
        (remaining.get definition.filters.text) Zoom.all
      obtain ⟨⟨rules, result⟩, ran⟩ := ofSlices_foreseen context filter _ declare
      cases result with
      | ok after => exact ⟨_, ran.bind (.done _)⟩
      | error error => exact ⟨_, ran.bind (.done _)⟩

end Rule

namespace Style

/-- All that the definitions of a style declare satisfies `known`. -/
def Declares (known : Declaration → Prop) (style : Style) : Prop :=
  ∀ definition ∈ style.definitions, ∀ declaration ∈ definition.declarations, known declaration

theorem Declares.fold {style : Style} (declares : style.Declares known) (mode : FilterMode) :
    (style.fold mode).Declares known := by
  cases mode with
  | all => exact declares
  | first => exact fun definition member => declares definition ((foldFrom_sublist [] _).mem member)

theorem inherit_declares {scope : Scope} {definitions : List Definition} {styles : List Style}
    (inherited : inherit scope definitions = .ok styles)
    (allKnown : ∀ definition ∈ definitions, ∀ declaration ∈ definition.declarations, known declaration) :
    ∀ style ∈ styles, style.Declares known := by
  obtain ⟨originals, evaluated, rfl⟩ := inherit_ok inherited
  -- evaluating filters leaves the declarations as they are
  have knownOriginals : ∀ original ∈ originals, ∀ declaration ∈ original.declarations, known declaration := by
    intro original member
    obtain ⟨definition, isDefinition, evaluates⟩ := evaluateFilters_mem evaluated original member
    obtain ⟨filters, -, rfl⟩ := evaluateFilters_ok evaluates
    exact allKnown definition isDefinition
  have start : Inheritance.Declares known Inheritance.Work.empty := by simp [Inheritance.Declares, Inheritance.Work.empty]
  have declares := Inheritance.resolveFrom_declares start knownOriginals
  intro style isStyle definition isPart
  obtain ⟨entry, -, -, found⟩ := mem_ofWork isStyle isPart
  exact declares entry.2 definition found

theorem filterMode_foreseen {style : Style} (covers : style.Declares foresight.Covers) :
    Job.Foreseen foresight style.filterMode fun _ => True := by
  unfold filterMode
  split
  · exact .pure trivial
  · rename_i declaration found
    obtain ⟨definition, isPart, declares⟩ := List.mem_flatMap.mp (List.mem_of_find?_eq_some found)
    apply Job.Foreseen.bind (.value (covers definition isPart declaration declares).asked)
    intro text _
    split
    · exact .pure trivial
    · exact .throw _

end Style

namespace FeatureStyle

theorem readSettings_foreseen (settings : Settings) {declarations : List Declaration}
    (covers : ∀ declaration ∈ declarations, foresight.Covers declaration) :
    Job.Foreseen foresight (readSettings context settings declarations) fun _ => True := by
  induction declarations generalizing settings with
  | nil => exact .pure trivial
  | cons declaration rest ih =>
    obtain ⟨coversHere, coversRest⟩ := List.forall_mem_cons.mp covers
    unfold readSettings
    split
    · exact .bind (.value coversHere.asked) fun _ _ => .bind (.ofExcept _) fun _ _ => ih _ coversRest
    · exact ih settings coversRest

theorem rulesOf_foreseen (remaining : Remaining) {definitions : List Definition}
    (covers : ∀ definition ∈ definitions, ∀ declaration ∈ definition.declarations, foresight.Covers declaration) :
    Job.Foreseen foresight (rulesOf context remaining definitions) fun _ => True := by
  induction definitions generalizing remaining with
  | nil => exact .pure trivial
  | cons definition rest ih =>
    obtain ⟨coversHere, coversRest⟩ := List.forall_mem_cons.mp covers
    unfold rulesOf
    split
    · exact ih remaining coversRest
    · obtain ⟨outcome, ran⟩ := Rule.ofDefinition_foreseen context remaining coversHere
      apply Job.Foreseen.bind (.lift ran)
      intro outcome _
      split
      · exact .throw _
      · exact .bind (ih _ coversRest) fun _ _ => .pure trivial

theorem ofStyle_foreseen (name : String) {style : Style} (covers : style.Declares foresight.Covers) :
    Job.Foreseen foresight (ofStyle context name style) fun _ => True := by
  have coversAll : ∀ declaration ∈ style.definitions.flatMap Definition.declarations, foresight.Covers declaration := by
    intro declaration member
    obtain ⟨definition, isPart, declares⟩ := List.mem_flatMap.mp member
    exact covers definition isPart declaration declares
  apply Job.Foreseen.bind (Style.filterMode_foreseen covers)
  intro mode _
  apply Job.Foreseen.bind (readSettings_foreseen context Settings.start coversAll)
  intro settings _
  exact .bind (rulesOf_foreseen context Remaining.empty covers) fun _ _ => .pure trivial

theorem ofStyles_foreseen (layer : String) {styles : List Style} (covers : ∀ style ∈ styles, style.Declares foresight.Covers) :
    Job.Foreseen foresight (ofStyles context layer styles) fun _ => True := by
  induction styles with
  | nil => exact .pure trivial
  | cons style rest ih =>
    obtain ⟨coversHere, coversRest⟩ := List.forall_mem_cons.mp covers
    apply Job.Foreseen.bind (Style.filterMode_foreseen coversHere)
    intro mode _
    apply Job.Foreseen.bind (ofStyle_foreseen context _ (coversHere.fold mode))
    intro feature _
    exact .bind (ih coversRest) fun _ _ => .pure trivial

/-- The cascade of a layer asks for nothing unforeseen, whether it succeeds or not. -/
theorem ofLayer_foreseen (layer : String) {definitions : List Definition}
    (covers : ∀ definition ∈ definitions, ∀ declaration ∈ definition.declarations, foresight.Covers declaration) :
    Job.Foreseen foresight (ofLayer context layer definitions) fun _ => True := by
  apply Job.Foreseen.bind (.ofExcept _)
  intro styles inherited
  have coversStyles := Style.inherit_declares inherited covers
  apply ofStyles_foreseen
  exact fun style member => coversStyles style ((List.mergeSort_perm _ _).mem_iff.mp member)

end FeatureStyle
end rules
end MapStyle
