import MapStyle.Proofs.Cascade.Folding
import MapStyle.Proofs.Renumbering.Rules
import MapStyle.Proofs.Renumbering.Sources
import MapStyle.StyledMap.Layer
/-!
Renumbering of layers. Styles are put in the order of their numbers, and those without one have no rules, so that a layer
comes out the same with other numbers in the same order.
-/
namespace MapStyle
variable {r : Renumbering} {text : Expression → Except StyleError String}
  (blind : ∀ expr, text (expr.renumber r) = text expr) (fonts : String → FontSet) (context : Context)

namespace Style

include blind in
theorem filterMode_renumber (style : Style) :
    (style.renumber r).filterMode.answer text fonts = style.filterMode.answer text fonts := by
  rw [filterMode, filterMode, modeDeclaration?_renumber]
  cases style.modeDeclaration? with
  | none => rfl
  | some declaration =>
    simp only [Option.map_some, Declaration.renumber_value, Job.answer_bind, Job.answer_value, blind]
    rfl

theorem declarations_nil {style : Style} (nothing : style.declares = false) :
    ∀ definition ∈ style.definitions, definition.declarations = [] := by
  simpa [declares] using nothing

theorem flatMap_declarations_nil {style : Style} (nothing : style.declares = false) :
    style.definitions.flatMap Definition.declarations = [] :=
  List.flatMap_eq_nil_iff.mpr (declarations_nil nothing)

theorem filterMode_nil {style : Style} (nothing : style.declares = false) : style.filterMode = pure .first := by
  rw [filterMode, modeDeclaration?, flatMap_declarations_nil nothing]
  rfl

/-- Folding leaves nothing that declares anything where there was nothing. -/
theorem declares_fold {style : Style} (nothing : style.declares = false) (mode : FilterMode) :
    (style.fold mode).declares = false := by
  cases mode with
  | all => exact nothing
  | first =>
    have sublist := foldFrom_sublist [] style.definitions
    exact List.any_eq_false.mpr fun definition member => List.any_eq_false.mp nothing definition (sublist.mem member)

end Style

namespace FeatureStyle

theorem Settings.take_renumber (renderer : Renderer) (settings : Settings) (declaration : Declaration) (value : String) :
    settings.take renderer (declaration.renumber r) value = settings.take renderer declaration value := by
  simp only [take, readOpacity, Declaration.renumber_property, Declaration.renumber_place]

include blind in
theorem readSettings_renumber (settings : Settings) (declarations : List Declaration) :
    (readSettings (context.renumber r) settings (declarations.map (Declaration.renumber r))).answer text fonts =
      (readSettings context settings declarations).answer text fonts := by
  induction declarations generalizing settings with
  | nil => rfl
  | cons declaration rest ih =>
    have isStyle : isStyleProperty (context.renumber r) (declaration.renumber r) = isStyleProperty context declaration := rfl
    rw [List.map_cons, readSettings, readSettings, isStyle, Declaration.renumber_value, Context.renumber_renderer]
    split
    · simp only [Job.answer_bind, Job.answer_value, blind, Settings.take_renumber, Job.answer_ofExcept, ih]
    · exact ih settings

section mono
variable (ignores : context.renderer.IgnoresSources) (mono : StrictMono r.index)
include blind ignores mono

theorem rulesOf_renumber (remaining : Remaining) (definitions : List Definition) :
    (rulesOf (context.renumber r) remaining (definitions.map (Definition.renumber r))).answer text fonts =
      (rulesOf context remaining definitions).answer text fonts := by
  induction definitions generalizing remaining with
  | nil => rfl
  | cons definition rest ih =>
    have all : (definition.renumber r).declarations.all (isStyleProperty (context.renumber r)) =
        definition.declarations.all (isStyleProperty context) := List.all_map
    rw [List.map_cons, rulesOf, rulesOf, all]
    split
    · exact ih remaining
    · simp only [Job.answer_bind, Job.answer_lift, Rule.ofDefinition_renumber blind fonts context ignores mono]
      cases ran : Task.answer text fonts (Rule.ofDefinition context definition remaining) with
      | mk rules after error =>
        cases error with
        | some error => rfl
        | none =>
          change Job.answer text fonts (_ >>= _) = Job.answer text fonts (_ >>= _)
          rw [Job.answer_bind, Job.answer_bind, ih]

theorem ofStyle_renumber (name : String) (style : Style) :
    (ofStyle (context.renumber r) name (style.renumber r)).answer text fonts = (ofStyle context name style).answer text fonts := by
  have definitions : (style.renumber r).definitions = style.definitions.map (Definition.renumber r) := rfl
  simp only [ofStyle, Job.answer_bind, Style.filterMode_renumber blind, definitions,
    Style.flatMap_declarations_renumber, readSettings_renumber blind,
    rulesOf_renumber blind fonts context ignores mono, Job.answer_pure]

theorem ofStyles_renumber (layer : String) (styles : List Style) :
    (ofStyles (context.renumber r) layer (styles.map (Style.renumber r))).answer text fonts =
      (ofStyles context layer styles).answer text fonts := by
  induction styles with
  | nil => rfl
  | cons style rest ih =>
    have attachment : (style.renumber r).attachment = style.attachment := rfl
    simp only [List.map_cons, ofStyles, Job.answer_bind, Style.filterMode_renumber blind, Style.fold_renumber,
      attachment, ofStyle_renumber blind fonts context ignores mono, ih, Job.answer_pure]

end mono

theorem rulesOf_nil (remaining : Remaining) {definitions : List Definition}
    (nothing : ∀ definition ∈ definitions, definition.declarations = []) : rulesOf context remaining definitions = pure [] := by
  induction definitions with
  | nil => rfl
  | cons definition rest ih =>
    obtain ⟨here, others⟩ := List.forall_mem_cons.mp nothing
    rw [rulesOf, here]
    exact ih others

theorem ofStyle_nil (name : String) {style : Style} (nothing : style.declares = false) :
    ∃ feature, (ofStyle context name style).answer text fonts = .ok feature ∧ feature.rules = [] := by
  rw [ofStyle, Style.filterMode_nil nothing, Style.flatMap_declarations_nil nothing,
    rulesOf_nil context _ (Style.declarations_nil nothing)]
  exact ⟨_, rfl, rfl⟩

/-- A style without declarations has no rules and is left out. -/
theorem ofStyles_declares (layer : String) (styles : List Style) :
    (ofStyles context layer (styles.filter Style.declares)).answer text fonts =
      (ofStyles context layer styles).answer text fonts := by
  induction styles with
  | nil => rfl
  | cons style rest ih =>
    cases declares : style.declares with
    | true =>
      rw [List.filter_cons_of_pos declares]
      simp only [ofStyles, Job.answer_bind, ih]
    | false =>
      obtain ⟨feature, made, noRules⟩ := @ofStyle_nil text fonts context (styleName layer style.attachment) _
        (Style.declares_fold declares .first)
      rw [List.filter_cons_of_neg (by simp [declares]), ih, ofStyles, Style.filterMode_nil declares]
      change _ = Job.answer text fonts (ofStyle context (styleName layer style.attachment) (style.fold .first) >>= _)
      rw [Job.answer_bind, made]
      change _ = Job.answer text fonts (ofStyles context layer rest >>= _)
      rw [Job.answer_bind, noRules]
      cases Job.answer text fonts (ofStyles context layer rest) <;> rfl

section mono
variable (ignores : context.renderer.IgnoresSources) (mono : StrictMono r.index)
include blind ignores mono

/-- A layer comes to the same feature styles, or the same failure, with other numbers in the same order. -/
theorem ofLayer_renumber (layer : String) (definitions : List Definition) :
    (ofLayer (context.renumber r) layer (definitions.map (Definition.renumber r))).answer text fonts =
      (ofLayer context layer definitions).answer text fonts := by
  have inherited : Style.inherit (context.renumber r).scope (definitions.map (Definition.renumber r)) =
      (Style.inherit context.scope definitions).map (List.map (Style.renumber r)) :=
    Style.inherit_renumber r context.scope definitions
  rw [ofLayer, ofLayer, Job.answer_bind, Job.answer_bind, inherited]
  cases Style.inherit context.scope definitions with
  | error error => rfl
  | ok styles =>
    change Job.answer text fonts (ofStyles _ layer (Style.sort (styles.map (Style.renumber r)))) =
      Job.answer text fonts (ofStyles context layer (Style.sort styles))
    rw [← ofStyles_declares, Style.sort_renumber r mono, ofStyles_renumber blind fonts context ignores mono,
      ofStyles_declares]

end mono
end FeatureStyle

def MapContext.renumber (r : Renumbering) (context : MapContext) : MapContext :=
  { context with sheets := context.sheets.renumber r }

namespace MapLayer
variable (context : MapContext)

theorem definitionsFor_renumber (tree : LayerTree) :
    definitionsFor (context.renumber r) tree = (definitionsFor context tree).map (Definition.renumber r) := by
  rw [definitionsFor, definitionsFor]
  split
  · rfl
  · exact Definition.applicable_renumber r context.sheets.definitions tree.value.name tree.value.classNames

include blind in
theorem compile_renumber (ignores : context.renderer.IgnoresSources) (mono : StrictMono r.index) (tree : LayerTree) :
    (compile (context.renumber r) tree).answer text fonts = (compile context tree).answer text fonts := by
  have layer : bare (context.renumber r) tree.value = bare context tree.value := rfl
  have styles : Task.answer text fonts (ExceptT.run (FeatureStyle.ofLayer (context.renumber r).styling
      (bare context tree.value).name (definitionsFor (context.renumber r) tree))) = Task.answer text fonts
      (ExceptT.run (FeatureStyle.ofLayer context.styling (bare context tree.value).name (definitionsFor context tree))) := by
    rw [definitionsFor_renumber]
    exact FeatureStyle.ofLayer_renumber blind fonts context.styling ignores mono _ _
  rw [compile, compile, layer]
  rw [Task.answer_then, Task.answer_then, styles]

end MapLayer
end MapStyle
