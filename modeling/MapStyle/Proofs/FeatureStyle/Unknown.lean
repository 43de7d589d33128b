import MapStyle.Proofs.Cascade.Features
import MapStyle.Proofs.Cascade.Folding
import MapStyle.Proofs.Cascade.Growth
import MapStyle.Proofs.FeatureStyle.Layer
/-!
Unknown properties. Only the definitions that are left after folding are checked for them. Where all definitions of a
style are walked nothing is folded, so that no unknown property escapes; where the first that fits draws, one escapes
only if for every feature it is for, inheritance diverts declarations, or another declaration goes by its id.
-/
namespace MapStyle

namespace Style
variable {values : Set String} (one : OneText values) {feature : Feature}
include one

open Inheritance

theorem ofWork_compares {originals : List Definition} (plain : ∀ original ∈ originals, Plain values original) {style : Style}
    (isStyle : style ∈ ofWork (resolve originals)) : ∀ definition ∈ style.definitions, definition.filters.Compares values := by
  intro definition inStyle
  obtain ⟨entry, -, -, found⟩ := mem_ofWork isStyle inStyle
  exact (resolve_founded one plain).sound.compares found

theorem ofWork_sources {originals : List Definition} (plain : ∀ original ∈ originals, Plain values original) {style : Style}
    (isStyle : style ∈ ofWork (resolve originals)) {definition : Definition} (isPart : definition ∈ style.definitions) :
    ∀ declaration ∈ definition.declarations, ∃ source ∈ originals, source.attachment = style.attachment ∧
      declaration ∈ source.declarations ∧
      ∀ feature, definition.filters.accepts feature → source.filters.accepts feature := by
  have work := resolve_founded one plain
  obtain ⟨entry, isPlaced, sameEntry, found⟩ := mem_ofWork isStyle isPart
  obtain ⟨there, foundThere, thereAttachment⟩ := work.placed entry isPlaced
  obtain rfl := Option.some.inj (foundThere.symm.trans found)
  intro declaration holds
  obtain ⟨source, isSource, sameAttachment, declares, accepts⟩ := (work.founded found).sources declaration holds
  exact ⟨source, isSource, sameAttachment.trans (thereAttachment.trans sameEntry), declares, accepts⟩

theorem exists_leader {originals : List Definition} (plain : ∀ original ∈ originals, Plain values original) {style : Style}
    (isStyle : style ∈ ofWork (resolve originals))
    (seen : ∃ original ∈ originals, original.attachment = style.attachment ∧ original.filters.accepts feature)
    (straight : ¬ RunDiverts style.attachment feature Work.empty originals) :
    ∃ leader, style.leader? feature = some leader ∧
      leader.declarations = Definition.walk (seeing style.attachment feature originals) := by
  have sound : Sound values Work.empty := ⟨by simp [Work.empty], by simp [Work.empty, Work.find?]⟩
  obtain ⟨member, leader, leads, walked, -⟩ := resolveFrom_leading one sound plain
    (by simp [Rejecting, Work.placedFor, Work.empty]) seen
  obtain ⟨led, -, -, unique, front, back, split, rejecting⟩ := exists_leading leads
  obtain rfl := unique style isStyle rfl
  refine ⟨leader, ?_, walked straight⟩
  rw [leader?, List.find?_eq_some_iff_append]
  exact ⟨by simpa using leads.accepts, front, back, split, by simpa using rejecting⟩

end Style

namespace FeatureStyle
open Inheritance

variable {context : Context} {layer : String} {before after : Shared}

theorem filterMode_replays (scope : Scope) (style : Style) : Job.Replays scope style.filterMode := by
  unfold Style.filterMode
  split
  · exact .pure _
  · apply Job.Replays.bind (.value _)
    intro value
    split
    · exact .pure _
    · exact .throw _

/-- Where the styles of a layer succeed, each has a filter mode, and what folding leaves of it has known properties. -/
theorem ofStyles_known {styles : List Style} {features : List FeatureStyle}
    (ran : (ofStyles context layer styles).run context.scope before = (.ok features, after)) :
    ∀ style ∈ styles, ∃ mode, style.filterMode.run context.scope after = (.ok mode, after) ∧
      ∀ definition ∈ (style.fold mode).definitions, ∀ declaration ∈ definition.declarations,
        (context.renderer.target? declaration.property).isSome := by
  induction styles generalizing before features with
  | nil => simp
  | cons style rest ih =>
    obtain ⟨mode, second, feature, third, others, ranMode, ranHere, ranRest, rfl⟩ := ofStyles_cons ran
    have grownMode := (Job.run_extends ranHere).trans (Job.run_extends ranRest)
    obtain ⟨-, start, ranRules⟩ := ofStyle_ok ranHere
    rw [List.forall_mem_cons]
    constructor
    · exact ⟨mode, filterMode_replays context.scope style _ _ _ ranMode _ grownMode, rulesOf_known ranRules⟩
    · exact ih ranRest

/-- An unknown property of a layer that succeeds is in a style of which the first definition that fits draws, and for each
feature that its definition accepts, inheritance diverts declarations, or a declaration of another property for that
feature goes by the same id. -/
theorem ofLayer_unknown {values : Set String} (one : OneText values) {definitions : List Definition}
    (comparesIn : ∀ definition ∈ definitions, definition.filters.ComparesIn context.scope values)
    {features : List FeatureStyle}
    (ran : (ofLayer context layer definitions).run context.scope before = (.ok features, after)) :
    ∃ styles originals, Style.inherit context.scope definitions = .ok styles ∧
      definitions.mapM (Style.evaluateFilters context.scope) = .ok originals ∧
      ∀ original ∈ originals, ∀ unknown ∈ original.declarations, context.renderer.target? unknown.property = none →
        ∃ style ∈ styles, style.attachment = original.attachment ∧
          style.filterMode.run context.scope after = (.ok .first, after) ∧
          ∀ feature, original.filters.accepts feature →
            RunDiverts original.attachment feature Work.empty originals ∨
            ∃ other ∈ originals, other.attachment = original.attachment ∧ other.filters.accepts feature ∧
              ∃ namesake ∈ other.declarations, namesake.id = unknown.id ∧ namesake.property ≠ unknown.property := by
  obtain ⟨styles, between, isInherited, ran⟩ := Job.bind_ok ran
  obtain ⟨inherited, rfl⟩ := Job.ofExcept_ok isInherited
  obtain ⟨originals, evaluated, rfl⟩ := Style.inherit_ok inherited
  refine ⟨_, originals, inherited, evaluated, fun original isOriginal unknown declares isUnknown => ?_⟩
  have plain := Style.plain_originals one comparesIn evaluated
  obtain ⟨member, placed, present⟩ := @resolveFrom_present Work.empty originals original isOriginal
  obtain ⟨style, isStyle, sameAttachment⟩ := Style.exists_ofWork placed
  have sorted : style ∈ Style.sort (Style.ofWork (resolve originals)) :=
    (List.mergeSort_perm _ _).mem_iff.mpr isStyle
  obtain ⟨mode, ranMode, known⟩ := ofStyles_known ran style sorted
  refine ⟨style, isStyle, sameAttachment, ?_⟩
  cases mode with
  | all =>
    -- nothing is folded, so that the member of the original is checked
    obtain ⟨definition, found, starts⟩ := present
    have isPart : definition ∈ style.definitions := by
      rw [Style.definitions_ofWork isStyle, sameAttachment]
      exact List.mem_filterMap.mpr ⟨member, placed, found⟩
    have isKnown := known definition isPart unknown (starts.declarations.mem declares)
    simp [isUnknown] at isKnown
  | first =>
    refine ⟨ranMode, fun feature accepted => or_iff_not_imp_left.mpr fun straight => ?_⟩
    rw [← sameAttachment] at straight
    obtain ⟨leader, leads, walked⟩ :=
      Style.exists_leader one plain isStyle ⟨original, isOriginal, sameAttachment.symm, accepted⟩ straight
    have isKept : leader ∈ (style.fold .first).definitions :=
      Style.mem_fold one (Style.ofWork_compares one plain isStyle) leads
    -- the walk has a declaration of the unknown's id, which is another one, since what folding keeps is checked
    have seen : original ∈ seeing style.attachment feature originals :=
      Definition.mem_accepting.mpr ⟨List.mem_filter.mpr ⟨isOriginal, by simp [sameAttachment]⟩, accepted⟩
    have isNamed := Definition.ids_walk seen declares
    rw [← walked] at isNamed
    obtain ⟨namesake, holds, sameId⟩ := List.mem_map.mp isNamed
    obtain ⟨source, isSource, attachment, sourceDeclares, accepts⟩ :=
      Style.ofWork_sources one plain isStyle (List.mem_of_find?_eq_some leads) namesake holds
    have acceptedByLeader : leader.filters.accepts feature := by simpa using List.find?_some leads
    refine ⟨source, isSource, attachment.trans sameAttachment, accepts feature acceptedByLeader, namesake, sourceDeclares,
      sameId, fun sameProperty => ?_⟩
    have isKnown := known leader isKept namesake holds
    simp [sameProperty, isUnknown] at isKnown

def setting (filters : List Filter) (property value : String) (index : Nat) : Definition :=
  { Style.declaring filters property index with
    declarations := [Declaration.ofName property ⟨index, .keyword value, ⟨"roads.mss", index⟩⟩ index ⟨"roads.mss", index⟩] }

def misspelled : List Definition :=
  [setting [] "line-cap" "round" 0, setting [.ofText "a" .equal "1"] "line-width" "2" 1,
    setting [.ofText "b" .equal "1"] "line-width" "3" 2,
    setting [.ofText "a" .equal "1", .ofText "c" .equal "1"] "line-join" "round" 3,
    setting [.ofText "a" .equal "1", .ofText "b" .equal "1", .ofText "c" .equal "1"] "line-colour" "red" 4]

theorem ofLayer_unknown_misspelled : ∃ features after,
    (ofLayer capContext "roads" misspelled).run capContext.scope Shared.empty = (.ok features, after) ∧
    (∃ definition ∈ misspelled, ∃ unknown ∈ definition.declarations,
      capContext.renderer.target? unknown.property = none) ∧
    RunDiverts defaultAttachment Style.ones Work.empty misspelled := by
  have succeeds : ((ofLayer capContext "roads" misspelled).run capContext.scope Shared.empty).1.isOk := by decide +kernel
  have comparesIn : ∀ definition ∈ misspelled, definition.filters.ComparesIn capContext.scope {"1"} :=
    Style.comparesIn_one (by decide +kernel)
  have last : ∃ definition ∈ misspelled, definition.attachment = defaultAttachment ∧
      (∀ filter ∈ definition.filters.filters, filter.op = .equal ∧ filter.numeric = some (Number.ofNat 1)) ∧
      ∃ unknown ∈ definition.declarations, capContext.renderer.target? unknown.property = none ∧
        ∀ other ∈ misspelled, ∀ namesake ∈ other.declarations, namesake.id = unknown.id →
          namesake.property = unknown.property := by decide +kernel
  rcases ran : (ofLayer capContext "roads" misspelled).run capContext.scope Shared.empty with ⟨result, after⟩
  rw [ran] at succeeds
  cases result with
  | error error => exact absurd succeeds Bool.false_ne_true
  | ok features =>
    obtain ⟨definition, isDefinition, attachment, equalities, unknown, declares, isUnknown, unique⟩ := last
    refine ⟨features, after, rfl, ⟨definition, isDefinition, unknown, declares, isUnknown⟩, ?_⟩
    obtain ⟨styles, originals, -, evaluated, escapes⟩ := ofLayer_unknown Style.oneText_one comparesIn ran
    obtain rfl : misspelled = originals := Except.ok.inj evaluated
    obtain ⟨style, -, -, -, escape⟩ := escapes definition isDefinition unknown declares isUnknown
    rw [← attachment]
    rcases escape Style.ones (Style.accepts_ones equalities) with diverts | ⟨other, isOther, -, -, namesake, holds, same, differs⟩
    · exact diverts
    · exact absurd (unique other isOther namesake holds same) differs

end FeatureStyle
end MapStyle
