import MapStyle.FeatureStyle.Basic
import MapStyle.Proofs.Renumbering.Cascade
import MapStyle.Proofs.Task.Answers
import MapStyle.Renderer.Named
/-!
Renumbering of rules. Slices are cut by zoom levels and properties alone. The symbolizers of a slice are put in the order of
their numbers, and no symbolizer is without one, so that a slice draws the same with other numbers in the same order.
-/
namespace MapStyle
variable (r : Renumbering)

def Context.renumber (context : Context) : Context := { context with scope := context.scope.renumber r }

@[simp] theorem Context.renumber_renderer (context : Context) : (context.renumber r).renderer = context.renderer := rfl

def Group.renumber (group : Group) : Group := { group with declarations := group.declarations.map (Declaration.renumber r) }

def Slice.renumber (slice : Slice) : Slice :=
  { slice with lead := slice.lead.renumber r, groups := slice.groups.map (Group.renumber r) }

theorem Group.add?_renumber (declaration : Declaration) (kind : Kind) (groups : List Group) :
    add? (declaration.renumber r) kind (groups.map (renumber r)) =
      (add? declaration kind groups).map (List.map (renumber r)) := by
  induction groups with
  | nil => rfl
  | cons group rest ih =>
    have has : (group.renumber r).has (declaration.renumber r).property = group.has declaration.property := List.any_map
    have isFor : (group.renumber r).isFor (declaration.renumber r) kind = group.isFor declaration kind := rfl
    rw [List.map_cons, add?, add?, ih, has, isFor]
    split
    · split
      · rfl
      · simp [push, renumber]
    · cases add? declaration kind rest <;> rfl

namespace Slice
variable (target : String → Option Target) (groups : List Group) (declarations : List Declaration)

theorem collect_renumber (levels : Zoom) :
    collect target (groups.map (Group.renumber r)) levels (declarations.map (Declaration.renumber r)) =
      ((collect target groups levels declarations).1.map (Group.renumber r),
        (collect target groups levels declarations).2) := by
  induction declarations generalizing groups levels with
  | nil => rfl
  | cons declaration rest ih =>
    rw [List.map_cons, collect, collect, Declaration.renumber_property, Declaration.renumber_zoom]
    split
    · rename_i kind _
      rw [Group.add?_renumber]
      cases Group.add? declaration kind groups with
      | none => simp only [Option.map_none, ih, ite_self]
      | some later => simp only [Option.map_some, ih]; split <;> rfl
    · exact ih groups levels

/-- The levels of a slice depend on those of its declarations, and its groups on their properties. -/
theorem take_renumber (lead : Declaration) (wanted available : Zoom) :
    take target (lead.renumber r) (declarations.map (Declaration.renumber r)) wanted available =
      ((take target lead declarations wanted available).1.map (renumber r),
        (take target lead declarations wanted available).2) := by
  fun_induction take target lead declarations wanted available with
  | case1 available empty => rw [take, dif_pos empty]; rfl
  | case2 available nonempty found groupless =>
    have collected := collect_renumber r target [] declarations (wanted.inter available)
    rw [take, dif_neg nonempty]
    simp only [List.map_nil] at collected
    simp only [collected, List.isEmpty_map]
    rw [if_pos groupless]
    rfl
  | case3 available nonempty found filled others ih =>
    have collected := collect_renumber r target [] declarations (wanted.inter available)
    rw [take, dif_neg nonempty]
    simp only [List.map_nil] at collected
    simp only [collected, List.isEmpty_map]
    rw [if_neg filled, ih]
    rfl

theorem cut_renumber (remaining available : Zoom) :
    cut target remaining available (declarations.map (Declaration.renumber r)) =
      (cut target remaining available declarations).map (renumber r) := by
  fun_induction cut target remaining available declarations with
  | case1 => rfl
  | case2 remaining available lead rest passed ih => rw [List.map_cons, cut, ← ih]; exact if_pos passed
  | case3 remaining available lead rest counts taken ih =>
    have took : take target (lead.renumber r) (lead.renumber r :: rest.map (Declaration.renumber r)) lead.zoom available =
        (taken.1.map (renumber r), taken.2) := take_renumber r target (lead :: rest) lead lead.zoom available
    rw [List.map_cons, cut, List.map_append, ← ih]
    refine (if_neg counts).trans ?_
    simp only [Declaration.renumber_zoom, took, List.foldl_map]
    rfl

end Slice

section answers
variable {r} {text : Expression → Except StyleError String} (blind : ∀ expr, text (expr.renumber r) = text expr)
  (fonts : String → FontSet) (context : Context)

namespace Group

include blind in
theorem properties_renumber (kind : Kind) (declarations : List Declaration) :
    (properties (context.renumber r) kind (declarations.map (Declaration.renumber r))).answer text fonts =
      (properties context kind declarations).answer text fonts := by
  induction declarations with
  | nil => rfl
  | cons declaration rest ih =>
    rw [List.map_cons, properties, properties, Declaration.renumber_property, Declaration.renumber_value,
      Context.renumber_renderer]
    split
    · simp only [Job.answer_bind, Job.answer_value, blind, ih]
      rfl
    · rfl

include blind in
theorem symbolizer?_renumber (group : Group) :
    (symbolizer? (context.renumber r) (group.renumber r)).answer text fonts = (symbolizer? context group).answer text fonts := by
  obtain ⟨instanceName, kind, declarations⟩ := group
  cases declarations with
  | nil => rfl
  | cons first rest =>
    have same := properties_renumber blind fonts context kind (first :: rest)
    change Job.answer text fonts (properties _ kind ((first :: rest).map _) >>= _) =
      Job.answer text fonts (properties context kind (first :: rest) >>= _)
    rw [Job.answer_bind, Job.answer_bind, same]
    rfl

include blind in
theorem inOrder_renumber (groups : List Group) :
    (inOrder (context.renumber r) (groups.map (renumber r))).answer text fonts = (inOrder context groups).answer text fonts := by
  induction groups with
  | nil => rfl
  | cons group rest ih =>
    simp only [List.map_cons, inOrder, Job.answer_bind, symbolizer?_renumber blind, ih, Job.answer_pure]

def declares (group : Group) : Bool := !group.declarations.isEmpty

/-- A group without declarations has no symbolizer. -/
theorem inOrder_declares (groups : List Group) :
    (inOrder context (groups.filter declares)).answer text fonts = (inOrder context groups).answer text fonts := by
  induction groups with
  | nil => rfl
  | cons group rest ih =>
    obtain ⟨instanceName, kind, declarations⟩ := group
    cases declarations with
    | nil =>
      rw [List.filter_cons_of_neg (by simp [declares]), ih, inOrder]
      change _ = Job.answer text fonts (pure none >>= _)
      simp only [Job.answer_bind, Job.answer_pure]
      cases Job.answer text fonts (inOrder context rest) <;> rfl
    | cons first others =>
      rw [List.filter_cons_of_pos (by simp [declares])]
      simp only [inOrder, Job.answer_bind, ih]

theorem index_renumber (mono : StrictMono r.index) (group : Group) (declaring : group.declares) :
    (group.renumber r).index = r.index group.index := by
  have moved : (group.renumber r).declarations.map Declaration.index = (group.declarations.map Declaration.index).map r.index := by
    simp only [renumber, List.map_map]
    rfl
  rw [index, index, moved, min?_map mono.monotone]
  cases least : (group.declarations.map Declaration.index).min? with
  | some first => rfl
  | none =>
    rw [List.min?_eq_none_iff, List.map_eq_nil_iff] at least
    simp [declares, least] at declaring

theorem sort_renumber (mono : StrictMono r.index) (groups : List Group) :
    (sort (groups.map (renumber r))).filter declares = ((sort groups).filter declares).map (renumber r) := by
  refine MapStyle.sort_renumber mono (fun group => ?_) (index_renumber mono) groups
  simp [declares, renumber]

include blind in
/-- The first symbolizer to fail stays the first, as groups keep their order. -/
theorem symbolizers_renumber (mono : StrictMono r.index) (groups : List Group) :
    (symbolizers (context.renumber r) (groups.map (renumber r))).answer text fonts =
      (symbolizers context groups).answer text fonts := by
  have inOrder : (inOrder (context.renumber r) (sort (groups.map (renumber r)))).answer text fonts =
      (inOrder context (sort groups)).answer text fonts := by
    rw [← inOrder_declares, sort_renumber mono, inOrder_renumber blind, inOrder_declares]
  simp only [symbolizers, Job.answer_bind, inOrder]

end Group

/-- Whether a renderer writes filters without looking at where their values come from. -/
def Renderer.IgnoresSources (renderer : Renderer) : Prop :=
  ∀ (filter : Filter) (source : Option Expression), renderer.filterText { filter with source } = renderer.filterText filter

theorem Renderer.ofName_ignoresSources (name : String) : (ofName name).IgnoresSources := by
  unfold ofName
  split <;> exact fun _ _ => rfl

namespace Rule

theorem filterExpression_renumber {renderer : Renderer} (ignores : renderer.IgnoresSources) (definition : Definition) :
    filterExpression renderer (definition.renumber r) = filterExpression renderer definition := by
  have place : (definition.renumber r).place = definition.place := rfl
  have written : ∀ filter : Filter, renderer.filterText (filter.renumber r) = renderer.filterText filter :=
    fun filter => ignores filter _
  simp only [filterExpression, Definition.renumber_filters, FilterSet.renumber_isEmpty, FilterSet.renumber_filters, place,
    List.mapM_map, Function.comp_def, Filter.renumber_place?, written]

include blind in
theorem ofSlices_renumber (mono : StrictMono r.index) (filter : Option String) (remaining : Zoom) (slices : List Slice) :
    (ofSlices (context.renumber r) filter remaining (slices.map (Slice.renumber r))).answer text fonts =
      (ofSlices context filter remaining slices).answer text fonts := by
  induction slices generalizing remaining with
  | nil => rfl
  | cons slice rest ih =>
    have levels : (slice.renumber r).levels = slice.levels := rfl
    have symbolizers : Task.answer text fonts (ExceptT.run (Group.symbolizers (context.renumber r) (slice.renumber r).groups)) =
        Task.answer text fonts (ExceptT.run (Group.symbolizers context slice.groups)) :=
      Group.symbolizers_renumber blind fonts context mono slice.groups
    rw [List.map_cons, ofSlices, ofSlices, levels]
    dsimp only
    split
    · exact ih remaining
    · rw [Task.answer_then, Task.answer_then, symbolizers]
      cases Task.answer text fonts (ExceptT.run (Group.symbolizers context slice.groups)) with
      | error error => rfl
      | ok symbolizers =>
        dsimp only
        rw [Task.answer_then, Task.answer_then, ih]
        rfl

include blind in
theorem ofDefinition_renumber (ignores : context.renderer.IgnoresSources) (mono : StrictMono r.index) (definition : Definition)
    (remaining : Remaining) : (ofDefinition (context.renumber r) (definition.renumber r) remaining).answer text fonts =
      (ofDefinition context definition remaining).answer text fonts := by
  have unknown : ((definition.renumber r).declarations.find? fun declaration =>
      (context.renderer.target? declaration.property).isNone) = (definition.declarations.find? fun declaration =>
      (context.renderer.target? declaration.property).isNone).map (Declaration.renumber r) := List.find?_map
  rw [ofDefinition, ofDefinition, Context.renumber_renderer]
  dsimp only
  rw [unknown, filterExpression_renumber ignores, Definition.renumber_filters, FilterSet.renumber_text]
  cases definition.declarations.find? fun declaration => (context.renderer.target? declaration.property).isNone with
  | some declaration => rfl
  | none =>
    cases filterExpression context.renderer definition with
    | error error => rfl
    | ok filter =>
      have slices := ofSlices_renumber blind fonts context mono filter (remaining.get definition.filters.text)
        (Slice.cut context.renderer.target? (remaining.get definition.filters.text) Zoom.all definition.declarations)
      rw [← Slice.cut_renumber] at slices
      simp only [Option.map_none, Task.answer_then, Definition.renumber_declarations, slices]

end Rule
end answers
end MapStyle
