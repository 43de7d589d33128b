import MapStyle.Proofs.FeatureStyle.Layer
/-!
Layers without conditions. Where definitions have neither filters nor levels nor attachments of their own and declare
symbolizers only, the layer has one rule, whose symbolizers are built of what all of them declare.
-/
namespace MapStyle

/-- A declaration for a symbolizer that is visible at all levels. -/
structure Declaration.IsPlain (target : String → Option Target) (declaration : Declaration) : Prop where
  isAll : declaration.zoom = Zoom.all
  owned : (declaration.owner? target).isSome

/-- A definition without conditions, whose declarations are plain. -/
structure Definition.IsPlain (target : String → Option Target) (definition : Definition) : Prop where
  unfiltered : definition.filters = FilterSet.empty
  isDefault : definition.attachment = defaultAttachment
  declarations : ∀ declaration ∈ definition.declarations, declaration.IsPlain target

namespace Declaration.IsPlain
variable {target : String → Option Target} {declaration : Declaration} (plain : declaration.IsPlain target)
include plain

theorem drawsAt : declaration.drawsAt target 0 := by
  simp [Declaration.drawsAt, plain.owned, plain.isAll, Zoom.levels]

theorem target_isSome : (target declaration.property).isSome := by
  obtain ⟨owner, isOwner⟩ := Option.isSome_iff_exists.mp plain.owned
  simp [(Declaration.owner?_eq_some.mp isOwner).1]

theorem notStyle : target declaration.property ≠ some .style := by
  obtain ⟨owner, isOwner⟩ := Option.isSome_iff_exists.mp plain.owned
  simp [(Declaration.owner?_eq_some.mp isOwner).1]

end Declaration.IsPlain

namespace Slice
open Declaration MapStyle.Group
variable {target : String → Option Target} {lead : Declaration} {rest declarations : List Declaration}

theorem collect_plain (plain : ∀ declaration ∈ declarations, declaration.IsPlain target) (kept : List Declaration) :
    collect target (gather target kept) Zoom.all declarations =
      (gather target ((declarations.filter (drawsAt target 0)).foldl keepFirst kept), Zoom.all) := by
  induction declarations generalizing kept with
  | nil => rfl
  | cons next rest ih =>
    obtain ⟨here, others⟩ := List.forall_mem_cons.mp plain
    have shared : Zoom.all.intersects Zoom.all := by decide
    have whole : Zoom.all.inter Zoom.all = Zoom.all := by decide
    rw [collect_owned here.owned, here.isAll, List.filter_cons_of_pos here.drawsAt, List.foldl_cons, keepFirst]
    by_cases rival : kept.any next.rivals
    · simp only [rival, Bool.true_eq_false, and_false, ↓reduceIte, ih others]
    · simp only [rival, shared, and_self, ↓reduceIte, whole, ih others, Bool.false_eq_true]

theorem cut_none (available : Zoom) : cut target Zoom.none available declarations = [] := by
  have apart : ∀ zoom, Zoom.none.intersects zoom = false := by
    intro zoom
    rw [Zoom.intersects, (Zoom.isEmpty_iff _).mpr (by simp)]
    rfl
  induction declarations with
  | nil => rfl
  | cons next rest ih => rw [cut, if_pos (by simp [apart]), ih]

theorem cut_plain (plain : ∀ declaration ∈ lead :: rest, declaration.IsPlain target) :
    cut target Zoom.all Zoom.all (lead :: rest) = [⟨lead, Zoom.all, drawnAt target 0 (lead :: rest)⟩] := by
  have first := (List.forall_mem_cons.mp plain).1
  have found : collect target [] Zoom.all (lead :: rest) = (drawnAt target 0 (lead :: rest), Zoom.all) :=
    collect_plain plain []
  have whole : Zoom.all.inter Zoom.all = Zoom.all := by decide
  have visible : Zoom.all.isEmpty = false := by decide
  have left : Zoom.all.diff Zoom.all = Zoom.none := by decide
  have nothing : (Zoom.all.inter Zoom.none).isEmpty := by decide
  have groups : (drawnAt target 0 (lead :: rest)).isEmpty = false := by
    rw [List.isEmpty_eq_false_iff, Ne, drawnAt_eq_nil]
    simp [first.drawsAt]
  have taken : take target lead (lead :: rest) Zoom.all Zoom.all =
      ([⟨lead, Zoom.all, drawnAt target 0 (lead :: rest)⟩], Zoom.none) := by
    rw [take]
    simp only [whole, visible, Bool.false_eq_true, ↓reduceDIte, found, groups, ↓reduceIte, left]
    rw [take, dif_pos nothing]
  have kept : ¬ (decide (target lead.property = some .style) || !Zoom.all.intersects lead.zoom) := by
    simp only [first.notStyle, decide_false, Bool.false_or, first.isAll]
    decide
  rw [cut, if_neg kept, first.isAll, taken]
  simp only [List.foldl_cons, List.foldl_nil, left, cut_none, List.append_nil]

end Slice

namespace Rule
variable {context : Context} {definition : Definition} {filter : Option String} {slice : Slice} {before : Shared}

theorem ofSlices_whole (whole : slice.levels = Zoom.all) : (ofSlices context filter Zoom.all [slice]).run context.scope before =
    match (Group.symbolizers context slice.groups).run context.scope before with
    | (.ok symbolizers, after) => ((ofSlice slice filter Zoom.all symbolizers, .ok Zoom.none), after)
    | (.error error, after) => (([], .error error), after) := by
  have visible : Zoom.all.inter Zoom.all = Zoom.all := by decide
  have nonempty : Zoom.all.isEmpty = false := by decide
  have left : Zoom.all.diff Zoom.all = Zoom.none := by decide
  rw [ofSlices, whole]
  simp only [visible, nonempty, left, Bool.false_eq_true, ↓reduceIte]
  refine (Task.run_bind _ _ _ _).trans ?_
  rcases built : (Group.symbolizers context slice.groups).run context.scope before with ⟨_ | symbolizers, after⟩
  · rw [show Task.run context.scope (ExceptT.run (Group.symbolizers context slice.groups)) before = _ from built]
    rfl
  · rw [show Task.run context.scope (ExceptT.run (Group.symbolizers context slice.groups)) before = _ from built]
    simp only [ofSlices]
    exact congrArg (fun rules => ((rules, Except.ok Zoom.none), after)) (List.append_nil _)

theorem ofDefinition_plain {lead : Declaration} {rest : List Declaration}
    (plain : definition.IsPlain context.renderer.target?) (same : definition.declarations = lead :: rest) :
    (ofDefinition context definition Remaining.empty).run context.scope before =
      match (Group.symbolizers context (Group.drawnAt context.renderer.target? 0 (lead :: rest))).run context.scope before with
      | (.ok symbolizers, after) =>
        (⟨ofSlice ⟨lead, Zoom.all, Group.drawnAt context.renderer.target? 0 (lead :: rest)⟩ none Zoom.all symbolizers,
          Remaining.empty.set definition.filters.text Zoom.none, none⟩, after)
      | (.error error, after) => (⟨[], Remaining.empty.set definition.filters.text Zoom.all, some error⟩, after) := by
  have known : definition.declarations.find? (fun declaration => (context.renderer.target? declaration.property).isNone) = none :=
    List.find?_eq_none.mpr fun declaration member => by simp [Option.isSome_iff_ne_none.mp (plain.declarations declaration member).target_isSome]
  have noFilter : filterExpression context.renderer definition = .ok none := by
    rw [filterExpression, plain.unfiltered]
    rfl
  have sliced : Slice.cut context.renderer.target? Zoom.all Zoom.all definition.declarations = _ :=
    (congrArg _ same).trans (Slice.cut_plain (same ▸ plain.declarations))
  simp only [ofDefinition, known, noFilter, Remaining.get_empty, sliced]
  refine (Task.run_bind _ _ _ _).trans ?_
  rw [ofSlices_whole rfl]
  dsimp only
  rcases (Group.symbolizers context (Group.drawnAt context.renderer.target? 0 (lead :: rest))).run context.scope before with
    ⟨_ | _, after⟩ <;> rfl

end Rule

namespace FeatureStyle
open Declaration Rule
variable {context : Context} {layer : String} {definition : Definition} {before : Shared}

/-- The feature styles of a layer without conditions: one with one rule, if there is a symbolizer that can draw. -/
def unconditional (layer : String) (declared : List Declaration) (symbolizers : List Symbolizer) : List FeatureStyle :=
  match declared.head? with
  | none => []
  | some lead =>
    if symbolizers.any Symbolizer.isEnabled then
      [⟨layer, .first, none, none, [], [], false, [⟨lead.instanceName, none, ⟨0, 22⟩, symbolizers⟩]⟩]
    else []

theorem rulesOf_plain {lead : Declaration} {rest : List Declaration} (plain : definition.IsPlain context.renderer.target?)
    (same : definition.declarations = lead :: rest) :
    (rulesOf context Remaining.empty [definition]).run context.scope before =
      match (Group.symbolizers context (Group.drawnAt context.renderer.target? 0 (lead :: rest))).run context.scope before with
      | (.ok symbolizers, after) =>
        (.ok (ofSlice ⟨lead, Zoom.all, Group.drawnAt context.renderer.target? 0 (lead :: rest)⟩ none Zoom.all symbolizers), after)
      | (.error error, after) => (.error error, after) := by
  have isLead : lead ∈ definition.declarations := same ▸ List.mem_cons_self
  have notStyle : ¬ definition.declarations.all (isStyleProperty context) := fun all =>
    (plain.declarations lead isLead).notStyle (isStyleProperty_iff.mp (List.all_eq_true.mp all lead isLead))
  rw [rulesOf, if_neg notStyle, Job.run_bind, Job.run_lift, ofDefinition_plain plain same]
  rcases (Group.symbolizers context (Group.drawnAt context.renderer.target? 0 (lead :: rest))).run context.scope before with
    ⟨_ | symbolizers, after⟩
  · rfl
  · exact congrArg (fun rules => (Except.ok rules, after)) (List.append_nil _)

theorem readSettings_plain {settings : Settings} {declarations : List Declaration}
    (plain : ∀ declaration ∈ declarations, declaration.IsPlain context.renderer.target?) :
    readSettings context settings declarations = pure settings := by
  induction declarations with
  | nil => rfl
  | cons next rest ih =>
    obtain ⟨here, others⟩ := List.forall_mem_cons.mp plain
    rw [readSettings, if_neg fun isStyle => here.notStyle (isStyleProperty_iff.mp isStyle), ih others]

theorem filterMode_plain (reserved : context.renderer.target? "filter-mode" = some .style) {style : Style}
    (plain : ∀ definition ∈ style.definitions, definition.IsPlain context.renderer.target?) : style.filterMode = pure .first := by
  have undeclared : style.modeDeclaration? = none := by
    refine List.find?_eq_none.mpr fun declaration member isMode => ?_
    obtain ⟨definition, isDefinition, declares⟩ := List.mem_flatMap.mp member
    refine ((plain definition isDefinition).declarations declaration declares).notStyle ?_
    rw [beq_iff_eq.mp isMode, reserved]
  rw [Style.filterMode, undeclared]

theorem ofStyle_plain (reserved : context.renderer.target? "filter-mode" = some .style) {name attachment : String}
    (plain : definition.IsPlain context.renderer.target?) :
    (ofStyle context name ⟨attachment, [definition]⟩).run context.scope before =
      match (rulesOf context Remaining.empty [definition]).run context.scope before with
      | (.ok rules, after) => (.ok ⟨name, .first, none, none, [], [], false, rules⟩, after)
      | (.error error, after) => (.error error, after) := by
  have mode : Style.filterMode ⟨attachment, [definition]⟩ = pure .first :=
    filterMode_plain reserved (List.forall_mem_singleton.mpr plain)
  have settings : readSettings context Settings.start ([definition].flatMap Definition.declarations) = pure Settings.start := by
    rw [List.flatMap_singleton]
    exact readSettings_plain plain.declarations
  simp only [ofStyle, mode, settings, Job.run_bind, Job.run_pure]
  rcases (rulesOf context Remaining.empty [definition]).run context.scope before with ⟨_ | rules, after⟩ <;> rfl

end FeatureStyle

namespace Style
open Inheritance

theorem ofWork_attachment {work : Work} : ∀ style ∈ ofWork work, style.attachment ∈ work.placed.reverse.map Prod.fst := by
  intro style member
  obtain ⟨attachment, placed, rfl⟩ := List.mem_map.mp member
  exact List.mem_eraseDups.mp placed

theorem inherit_alike (scope : Scope) {definitions : List Definition} {attachment : String}
    (unfiltered : ∀ definition ∈ definitions, definition.filters = FilterSet.empty)
    (alike : ∀ definition ∈ definitions, definition.attachment = attachment) :
    inherit scope definitions = .ok (if definitions = [] then [] else [⟨attachment, completedAll definitions⟩]) := by
  have inherited : inherit scope definitions = .ok (ofWork (resolve definitions)) := by
    rw [inherit, mapM_evaluateFilters_unfiltered scope unfiltered]
    rfl
  have own : ∀ style ∈ ofWork (resolve definitions), style.attachment == attachment := by
    intro style member
    have placed := ofWork_attachment style member
    rw [resolve, resolveFrom_attachments inRange_empty unfiltered] at placed
    obtain ⟨definition, isDefinition, same⟩ := List.mem_map.mp (placed : _ ∈ definitions.map Definition.attachment)
    rw [← same, alike definition isDefinition, beq_self_eq_true]
  have all := inherit_unfiltered unfiltered inherited attachment
  have alikeAll : definitions.filter (fun definition => definition.attachment == attachment) = definitions :=
    List.filter_eq_self.mpr fun definition isDefinition => beq_iff_eq.mpr (alike definition isDefinition)
  rw [List.filter_eq_self.mpr own, completedAll_filter, alikeAll] at all
  rw [inherited, all]
  cases definitions with
  | nil => rfl
  | cons first later => simp [alike first List.mem_cons_self]

end Style

namespace Declaration
variable {target : String → Option Target} {known more declarations : List Declaration}

theorem due?_plain (plain : ∀ declaration ∈ declarations, declaration.IsPlain target) :
    Slice.due? target 0 declarations = declarations.head?.map fun lead => (lead, Group.drawnAt target 0 declarations) := by
  cases declarations with
  | nil => rfl
  | cons lead rest => rw [Slice.due?, List.find?_cons_of_pos (plain lead List.mem_cons_self).drawsAt, List.head?_cons]

theorem joined_plain (apart : ToldApart target (known ++ more))
    (plain : ∀ declaration ∈ known ++ more, declaration.IsPlain target) :
    (joined known more).head? = (known ++ more).head? ∧
      Group.drawnAt target 0 (joined known more) = Group.drawnAt target 0 (known ++ more) := by
  have plainJoined : ∀ declaration ∈ joined known more, declaration.IsPlain target := fun declaration member =>
    plain declaration (List.mem_append.mpr (mem_joined member))
  have same : Slice.due? target 0 (joined known more) = Slice.due? target 0 (known ++ more) :=
    due?_joined apart fun declaration member => (plainJoined declaration member).target_isSome
  rw [due?_plain plainJoined, due?_plain plain] at same
  cases left : joined known more with
  | nil =>
    cases right : known ++ more with
    | nil => exact ⟨rfl, rfl⟩
    | cons first others => simp [left, right] at same
  | cons lead rest =>
    cases right : known ++ more with
    | nil => simp [left, right] at same
    | cons first others =>
      simp only [left, right, List.head?_cons, Option.map_some, Option.some.injEq, Prod.mk.injEq] at same
      exact ⟨congrArg some same.1, same.2⟩

end Declaration

namespace FeatureStyle
open Declaration Rule Inheritance

theorem completedAll_plain {target : String → Option Target} {definitions : List Definition}
    (plain : ∀ definition ∈ definitions, definition.IsPlain target) :
    ∀ definition ∈ completedAll definitions, definition.IsPlain target := by
  intro definition member
  have unfiltered := completedAll_filters (fun other inside => (plain other inside).unfiltered) definition member
  have isDefault := completedAll_attachment (fun other inside => (plain other inside).isDefault) definition member
  refine ⟨unfiltered, isDefault, fun declaration declares => ?_⟩
  obtain ⟨source, isSource, declared⟩ := List.mem_flatMap.mp (completedAll_declarations definition member declaration declares)
  exact (plain source isSource).declarations declaration declared

theorem ofStyles_plain (reserved : context.renderer.target? "filter-mode" = some .style)
    (plain : definition.IsPlain context.renderer.target?) {style : Style} (isDefault : style.attachment = defaultAttachment)
    (plainStyle : ∀ definition ∈ style.definitions, definition.IsPlain context.renderer.target?)
    (folded : (style.fold .first).definitions = [definition]) :
    (ofStyles context layer [style]).run context.scope before =
      match (Group.symbolizers context (Group.drawnAt context.renderer.target? 0 definition.declarations)).run
        context.scope before with
      | (.ok symbolizers, after) => (.ok (unconditional layer definition.declarations symbolizers), after)
      | (.error error, after) => (.error error, after) := by
  have one : style.fold .first = ⟨defaultAttachment, [definition]⟩ := by
    rw [← folded, ← isDefault]
    rfl
  have name : styleName layer style.attachment = layer := by rw [styleName, isDefault, if_pos (beq_self_eq_true _)]
  rw [ofStyles, filterMode_plain reserved plainStyle, Job.run_bind, Job.run_pure]
  simp only [Job.run_bind, one, name, ofStyle_plain reserved plain]
  cases same : definition.declarations with
  | nil =>
    have nothing : rulesOf context Remaining.empty [definition] = pure [] := by
      simp [rulesOf, same]
    rw [Group.drawnAt_eq_nil.mpr rfl, Group.symbolizers_nil, nothing, Job.run_pure]
    rfl
  | cons lead rest =>
    rw [rulesOf_plain plain same]
    rcases (Group.symbolizers context (Group.drawnAt context.renderer.target? 0 (lead :: rest))).run context.scope before with
      ⟨_ | symbolizers, after⟩
    · rfl
    · have spans : Zoom.all.spans = [⟨0, 22⟩] := by decide
      by_cases enabled : symbolizers.any Symbolizer.isEnabled
      · simp only [ofSlice, enabled, spans, unconditional, if_true]
        rfl
      · simp only [ofSlice, enabled, unconditional]
        rfl

/-- A layer without conditions comes to the symbolizers of what its definitions declare, or fails as these do. -/
theorem ofLayer_plain (separate : context.renderer.Plain) (reserved : context.renderer.target? "filter-mode" = some .style)
    {definitions : List Definition} (plain : ∀ definition ∈ definitions, definition.IsPlain context.renderer.target?) :
    (ofLayer context layer definitions).run context.scope before =
      match (Group.symbolizers context (Group.drawnAt context.renderer.target? 0
        (definitions.flatMap Definition.declarations))).run context.scope before with
      | (.ok symbolizers, after) =>
        (.ok (unconditional layer (definitions.flatMap Definition.declarations) symbolizers), after)
      | (.error error, after) => (.error error, after) := by
  have unfiltered := fun definition member => (plain definition member).unfiltered
  have alike := fun definition member => (plain definition member).isDefault
  rw [ofLayer, Style.inherit_alike context.scope unfiltered alike, Job.run_bind, Job.run_ofExcept]
  cases definitions with
  | nil =>
    rw [List.flatMap_nil, Group.drawnAt_eq_nil.mpr rfl, Group.symbolizers_nil]
    simp [Style.sort, ofStyles, unconditional, Job.run_pure]
  | cons first later =>
    obtain ⟨here, others⟩ := List.forall_mem_cons.mp plain
    have plainAll : ∀ declaration ∈ first.declarations ++ later.flatMap Definition.declarations,
        declaration.IsPlain context.renderer.target? := by
      refine List.forall_mem_append.mpr ⟨here.declarations, fun declaration member => ?_⟩
      obtain ⟨definition, isLater, declares⟩ := List.mem_flatMap.mp member
      exact (others definition isLater).declarations declaration declares
    have sorted : Style.sort [⟨defaultAttachment, completedAll (first :: later)⟩] =
        [⟨defaultAttachment, completedAll (first :: later)⟩] := List.mergeSort_singleton _
    have folded : (Style.fold ⟨defaultAttachment, completedAll (first :: later)⟩ .first).definitions = [completed first later] :=
      Style.fold_first_unfiltered (completedAll_filters unfiltered)
    rw [if_neg (List.cons_ne_nil _ _)]
    dsimp only
    rw [sorted, ofStyles_plain reserved (completedAll_plain plain _ List.mem_cons_self) rfl (completedAll_plain plain) folded]
    have declares : (completed first later).declarations = joined first.declarations (later.flatMap Definition.declarations) :=
      completed_declarations fun other inLater => (others other inLater).isDefault.trans here.isDefault.symm
    obtain ⟨sameLead, sameGroups⟩ := joined_plain (separate.separable.toldApart _) plainAll
    rw [List.flatMap_cons, declares, sameGroups]
    simp only [unconditional, sameLead]

end FeatureStyle
end MapStyle
