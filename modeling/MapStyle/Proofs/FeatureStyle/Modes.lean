import MapStyle.Proofs.FeatureStyle.Unknown
/-!
Filter modes. The mode of a feature style is read from what folding has left, and folding goes by the mode read before.
They differ only where folding drops the first definition with a mode for an earlier one without, and then inheritance
has diverted the mode from every feature that the dropped definition is for.
-/
namespace MapStyle

def Definition.mode? (definition : Definition) : Option Declaration :=
  definition.declarations.find? fun declaration => declaration.property == "filter-mode"

namespace Style

theorem modeDeclaration?_eq (style : Style) : style.modeDeclaration? = style.definitions.findSome? Definition.mode? :=
  List.find?_flatMap

/-- `hidden` is the first definition with a filter mode, and folding drops it for one that it keeps before. -/
def HidesMode (style : Style) (hidden : Definition) : Prop :=
  hidden.mode?.isSome ∧ ∃ front back, style.definitions = front ++ hidden :: back ∧
    (∀ earlier ∈ front, earlier.mode? = none) ∧ ∃ kept ∈ foldFrom [] front, covers kept hidden

theorem HidesMode.found {style : Style} {hidden : Definition} (hides : style.HidesMode hidden) :
    style.definitions.find? (fun definition => definition.mode?.isSome) = some hidden := by
  obtain ⟨declares, front, back, split, without, -⟩ := hides
  rw [List.find?_eq_some_iff_append]
  exact ⟨declares, front, back, split, fun earlier isFront => by simp [without earlier isFront]⟩

theorem findSome?_foldFrom {α : Type} (find : Definition → Option α) (kept definitions : List Definition) :
    (foldFrom kept definitions).findSome? find = definitions.findSome? find ∨
      ∃ front hidden back, definitions = front ++ hidden :: back ∧ (∀ earlier ∈ front, find earlier = none) ∧
        (find hidden).isSome ∧ ∃ earlier ∈ kept ++ foldFrom kept front, covers earlier hidden := by
  induction definitions generalizing kept with
  | nil => exact Or.inl rfl
  | cons definition rest ih =>
    by_cases covered : kept.any fun earlier => covers earlier definition
    · cases found : find definition with
      | some mode =>
        obtain ⟨earlier, isKept, covers⟩ := List.any_eq_true.mp covered
        exact Or.inr ⟨[], definition, rest, rfl, by simp, by simp [found], earlier, List.mem_append_left _ isKept, covers⟩
      | none =>
        rcases ih kept with same | ⟨front, hidden, back, rfl, without, declares, hides⟩
        · left
          rw [foldFrom, if_pos covered, same, List.findSome?_cons, found]
        · refine Or.inr ⟨definition :: front, hidden, back, rfl, List.forall_mem_cons.mpr ⟨found, without⟩, declares, ?_⟩
          rwa [foldFrom, if_pos covered]
    · cases found : find definition with
      | some mode =>
        left
        rw [foldFrom, if_neg covered, List.findSome?_cons, List.findSome?_cons, found]
      | none =>
        rcases ih (kept ++ [definition]) with same | ⟨front, hidden, back, rfl, without, declares, hides⟩
        · left
          rw [foldFrom, if_neg covered, List.findSome?_cons, List.findSome?_cons, found, same]
        · refine Or.inr ⟨definition :: front, hidden, back, rfl, List.forall_mem_cons.mpr ⟨found, without⟩, declares, ?_⟩
          rwa [foldFrom, if_neg covered, ← List.singleton_append, ← List.append_assoc]

theorem filterMode_fold (style : Style) (mode : FilterMode) :
    (style.fold mode).filterMode = style.filterMode ∨ (mode = .first ∧ ∃ hidden, style.HidesMode hidden) := by
  cases mode with
  | all => exact Or.inl rfl
  | first =>
    rcases findSome?_foldFrom Definition.mode? [] style.definitions with same | ⟨front, hidden, back, split, without, declares, kept⟩
    · left
      have sameDeclaration : (style.fold .first).modeDeclaration? = style.modeDeclaration? := by
        rw [modeDeclaration?_eq, modeDeclaration?_eq]
        exact same
      rw [filterMode, filterMode, sameDeclaration]
    · exact Or.inr ⟨rfl, hidden, declares, front, back, split, without, kept⟩

open Inheritance

theorem HidesMode.diverts {values : Set String} (one : OneText values) {originals : List Definition}
    (plain : ∀ original ∈ originals, Plain values original) {style : Style} (isStyle : style ∈ ofWork (resolve originals))
    (names : ∀ definition ∈ (style.fold .first).definitions, ∀ declaration ∈ definition.declarations,
      '#' ∉ declaration.property.toList)
    {hidden : Definition} (hides : style.HidesMode hidden) {feature : Feature} (accepted : hidden.filters.accepts feature) :
    RunDiverts style.attachment feature Work.empty originals := by
  obtain ⟨declares, front, back, split, without, kept, stays, covered⟩ := hides
  obtain ⟨mode, found⟩ := Option.isSome_iff_exists.mp declares
  have isMode : mode.property = "filter-mode" := by simpa using List.find?_some found
  have compares := ofWork_compares one plain isStyle
  have isPart : hidden ∈ style.definitions := by simp [split]
  have isFront : kept ∈ front := (foldFrom_sublist [] front).subset stays
  have acceptedByKept : kept.filters.accepts feature :=
    accepts_of_covers one (compares kept (by simp [split, isFront])) (compares hidden isPart) covered accepted
  obtain ⟨source, isSource, sameAttachment, sourceDeclares, accepts⟩ :=
    ofWork_sources one plain isStyle isPart mode (List.mem_of_find?_eq_some found)
  by_contra straight
  obtain ⟨leader, leads, walked⟩ :=
    exists_leader one plain isStyle ⟨source, isSource, sameAttachment, accepts feature accepted⟩ straight
  -- the feature finds one of those without a mode, which yet has what the walk gives the feature
  have leadsFront : leader ∈ front := by
    classical
    rw [leader?, split, List.find?_append] at leads
    cases inFront : front.find? (fun definition => decide (definition.filters.accepts feature)) with
    | none => exact absurd acceptedByKept (by simpa using List.find?_eq_none.mp inFront kept isFront)
    | some first =>
      rw [inFront, Option.some_or] at leads
      exact Option.some.inj leads ▸ List.mem_of_find?_eq_some inFront
  have seen : source ∈ seeing style.attachment feature originals :=
    Definition.mem_accepting.mpr ⟨List.mem_filter.mpr ⟨isSource, by simp [sameAttachment]⟩, accepts feature accepted⟩
  have isNamed := Definition.ids_walk seen sourceDeclares
  rw [← walked] at isNamed
  obtain ⟨namesake, holds, sameId⟩ := List.mem_map.mp isNamed
  have plainName : '#' ∉ namesake.property.toList := names leader (mem_fold one compares leads) namesake holds
  obtain ⟨-, -, sameProperty⟩ := Declaration.id_injective plainName (by simp [isMode]) sameId
  have isNone := List.find?_eq_none.mp (without leader leadsFront) namesake holds
  simp [sameProperty, isMode] at isNone

end Style

namespace FeatureStyle
open Inheritance
variable {context : Context} {layer : String} {before after : Shared}

/-- A feature style comes of a style folded for `mode`, the filter mode of the style, in a run that ends in `last`. -/
structure Folded (context : Context) (layer : String) (last : Shared) (style : Style) (mode : FilterMode)
    (feature : FeatureStyle) : Prop where
  folds : style.filterMode.run context.scope last = (.ok mode, last)
  stored : (style.fold mode).filterMode.run context.scope last = (.ok feature.filterMode, last)
  made : ∃ start late, late.Extends last ∧
    (ofStyle context (styleName layer style.attachment) (style.fold mode)).run context.scope start = (.ok feature, late)

theorem ofStyle_mode {name : String} {style : Style} {feature : FeatureStyle}
    (ran : (ofStyle context name style).run context.scope before = (.ok feature, after)) :
    style.filterMode.run context.scope after = (.ok feature.filterMode, after) := by
  obtain ⟨mode, second, ranMode, ran⟩ := Job.bind_ok ran
  have grown := Job.run_extends ran
  obtain ⟨settings, third, -, ran⟩ := Job.bind_ok ran
  obtain ⟨rules, fourth, -, ran⟩ := Job.bind_ok ran
  obtain ⟨rfl, rfl⟩ := Job.pure_ok ran
  exact filterMode_replays context.scope style _ _ _ ranMode _ grown

theorem Folded.later {last : Shared} {style : Style} {mode : FilterMode} {feature : FeatureStyle}
    (folded : Folded context layer before style mode feature) (grown : before.Extends last) :
    Folded context layer last style mode feature where
  folds := filterMode_replays context.scope _ _ _ _ folded.folds _ grown
  stored := filterMode_replays context.scope _ _ _ _ folded.stored _ grown
  made := by
    obtain ⟨start, late, earlier, ran⟩ := folded.made
    exact ⟨start, late, earlier.trans grown, ran⟩

theorem ofStyles_folded {styles : List Style} {features : List FeatureStyle}
    (ran : (ofStyles context layer styles).run context.scope before = (.ok features, after)) :
    ∀ feature ∈ features, ∃ style ∈ styles, ∃ mode, Folded context layer after style mode feature := by
  induction styles generalizing before features with
  | nil =>
    obtain ⟨rfl, -⟩ := Job.pure_ok ran
    simp
  | cons style rest ih =>
    obtain ⟨mode, second, feature, third, others, ranMode, ranHere, ranRest, rfl⟩ := ofStyles_cons ran
    have here : Folded context layer third style mode feature :=
      ⟨filterMode_replays context.scope style _ _ _ ranMode _ (Job.run_extends ranHere), ofStyle_mode ranHere,
        second, third, .refl third, ranHere⟩
    have inRest : ∀ other ∈ others, ∃ style' ∈ style :: rest, ∃ mode, Folded context layer after style' mode other := by
      intro other isOther
      obtain ⟨style', isRest, folded⟩ := ih ranRest other isOther
      exact ⟨style', List.mem_cons_of_mem _ isRest, folded⟩
    split
    · exact inRest
    · exact List.forall_mem_cons.mpr
        ⟨⟨style, List.mem_cons_self, mode, here.later (Job.run_extends ranRest)⟩, inRest⟩

/-- A feature style has the filter mode that its style was folded for, unless folding went by the mode of a definition
that it dropped, and what it left is to be walked whole. From each feature that the dropped definition is for, inheritance
has then diverted declarations. -/
theorem ofLayer_mode {definitions : List Definition} {features : List FeatureStyle}
    (ran : (ofLayer context layer definitions).run context.scope before = (.ok features, after)) :
    ∃ styles originals, Style.inherit context.scope definitions = .ok styles ∧
      definitions.mapM (Style.evaluateFilters context.scope) = .ok originals ∧
      ∀ feature ∈ features, ∃ style ∈ styles, ∃ mode, Folded context layer after style mode feature ∧
        (feature.filterMode = mode ∨
          (mode = .first ∧ feature.filterMode = .all ∧ ∃ hidden, style.HidesMode hidden ∧
            ∀ {values : Set String}, OneText values → context.renderer.Plain →
              (∀ definition ∈ definitions, definition.filters.ComparesIn context.scope values) →
              ∀ seen, hidden.filters.accepts seen → RunDiverts style.attachment seen Work.empty originals)) := by
  obtain ⟨styles, between, isInherited, ran⟩ := Job.bind_ok ran
  obtain ⟨inherited, rfl⟩ := Job.ofExcept_ok isInherited
  obtain ⟨originals, evaluated, rfl⟩ := Style.inherit_ok inherited
  refine ⟨_, originals, inherited, evaluated, fun feature isFeature => ?_⟩
  obtain ⟨style, isSorted, mode, folded⟩ := ofStyles_folded ran feature isFeature
  have isStyle : style ∈ Style.ofWork (resolve originals) := (List.mergeSort_perm _ _).mem_iff.mp isSorted
  refine ⟨style, isStyle, mode, folded, or_iff_not_imp_left.mpr fun differs => ?_⟩
  rcases style.filterMode_fold mode with same | ⟨rfl, hidden, hides⟩
  · have stored := folded.stored
    rw [same, folded.folds] at stored
    exact absurd (Except.ok.inj (congrArg Prod.fst stored)).symm differs
  · have walked : feature.filterMode = .all := by
      cases isMode : feature.filterMode with
      | first => exact absurd isMode differs
      | all => rfl
    refine ⟨rfl, walked, hidden, hides, fun one plainNames comparesIn seen accepted => ?_⟩
    obtain ⟨start, late, -, ranStyle⟩ := folded.made
    obtain ⟨-, begun, ranRules⟩ := ofStyle_ok ranStyle
    exact hides.diverts one (Style.plain_originals one comparesIn evaluated) isStyle
      (fun definition isKept declaration declares => plainNames _ (rulesOf_known ranRules definition isKept declaration declares))
      accepted

def wavering : List Definition :=
  [setting [] "line-cap" "round" 0, setting [.ofText "a" .equal "1"] "line-width" "2" 1,
    setting [.ofText "b" .equal "1"] "line-width" "3" 2,
    setting [.ofText "a" .equal "1", .ofText "c" .equal "1"] "line-join" "round" 3,
    setting [.ofText "a" .equal "1", .ofText "b" .equal "1", .ofText "c" .equal "1"] "filter-mode" "first" 4,
    setting [.ofText "a" .different "1"] "filter-mode" "all" 5]

theorem ofLayer_mode_wavering : ∃ features after,
    (ofLayer capContext "roads" wavering).run capContext.scope Shared.empty = (.ok features, after) ∧
    ∃ feature ∈ features, feature.filterMode = .all ∧ ∃ style, Folded capContext "roads" after style .first feature ∧
      (∃ hidden, style.HidesMode hidden) ∧ RunDiverts style.attachment Style.ones Work.empty wavering := by
  have stored : ((ofLayer capContext "roads" wavering).run capContext.scope Shared.empty).1.toOption.map
      (List.map FeatureStyle.filterMode) = some [.all] := by decide +kernel
  have folds : ∀ style ∈ Style.ofWork (resolve wavering), (style.filterMode.run capContext.scope
      ((ofLayer capContext "roads" wavering).run capContext.scope Shared.empty).2).1.toOption = some .first := by
    decide +kernel
  have equalities : ∀ style ∈ Style.ofWork (resolve wavering), ∀ hidden ∈ style.definitions.find? fun definition =>
      definition.mode?.isSome, ∀ filter ∈ hidden.filters.filters, filter.op = .equal ∧
        filter.numeric = some (Number.ofNat 1) := by decide +kernel
  rcases ran : (ofLayer capContext "roads" wavering).run capContext.scope Shared.empty with ⟨result, after⟩
  rw [ran] at stored folds
  cases result with
  | error error => exact absurd stored nofun
  | ok features =>
    obtain ⟨feature, rfl, walked⟩ := List.map_eq_singleton_iff.mp (Option.some.inj stored)
    refine ⟨_, after, rfl, feature, List.mem_singleton_self feature, walked, ?_⟩
    obtain ⟨styles, originals, inherited, evaluated, modes⟩ := ofLayer_mode ran
    obtain rfl : wavering = originals := Except.ok.inj evaluated
    obtain rfl : Style.ofWork (resolve wavering) = styles := Except.ok.inj inherited
    obtain ⟨style, isStyle, mode, folded, outcome⟩ := modes feature (List.mem_singleton_self feature)
    have isFirst := folds style isStyle
    rw [folded.folds] at isFirst
    obtain rfl : mode = .first := Option.some.inj isFirst
    rcases outcome with same | ⟨-, -, hidden, hides, diverts⟩
    · simp [walked] at same
    · refine ⟨style, folded, ⟨hidden, hides⟩, diverts Style.oneText_one (Renderer.ofName_plain "mapnik") ?_ Style.ones ?_⟩
      · exact Style.comparesIn_one (by decide +kernel)
      · exact Style.accepts_ones (equalities style isStyle hidden hides.found)

end FeatureStyle
end MapStyle
