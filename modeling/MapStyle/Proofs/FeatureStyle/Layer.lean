import Mathlib.Data.List.Forall2
import MapStyle.Proofs.FeatureStyle.Drawing
import MapStyle.Proofs.FeatureStyle.Inherited
import MapStyle.Renderer.Named
/-!
A whole layer. Without filters its feature styles are the cascade taken level by level: each level is drawn with the
first visible declaration of each instance, kind and property. Inheritance goes by ids, so that a declaration is lost
behind another one for whose id it is taken, which only happens to a renderer that knows a name within a name.
-/
namespace MapStyle

namespace Renderer

/-- Whether the names that a renderer knows hold no `#`, which separates the parts of an id. -/
def Plain (renderer : Renderer) : Prop :=
  ∀ property, (renderer.target? property).isSome → '#' ∉ property.toList

/-- Whether no name that a renderer knows ends in a `#` and another one. -/
def Separable (renderer : Renderer) : Prop :=
  ∀ outer inner, (renderer.target? outer).isSome → (renderer.target? inner).isSome →
    ∀ front, outer.toList ≠ front ++ '#' :: inner.toList

theorem Plain.separable {renderer : Renderer} (plain : renderer.Plain) : renderer.Separable := by
  intro outer inner known _ front split
  exact plain outer known (by simp [split])

theorem Separable.toldApart {renderer : Renderer} (separable : renderer.Separable) (declarations : List Declaration) :
    Declaration.ToldApart renderer.target? declarations := by
  intro a _ b _ aKnown bKnown same
  obtain ⟨-, sameNames | ⟨front, split⟩ | ⟨front, split⟩⟩ := Declaration.id_cases same
  · exact sameNames
  · exact absurd split (separable _ _ aKnown bKnown front)
  · exact absurd split (separable _ _ bKnown aKnown front)

theorem hash_mem_bytes {name : String} (inside : '#' ∈ name.toList) : 35 ∈ name.toByteArray.data.toList := by
  rw [← String.utf8Encode_toList, List.utf8Encode, List.toList_data_toByteArray]
  exact List.mem_flatMap.mpr ⟨'#', inside, by decide⟩

theorem plain_of_names {renderer : Renderer}
    (names : (renderer.vocabulary.style ++ renderer.vocabulary.kinds.flatMap fun entry =>
      entry.2.map KnownProperty.name).all fun name => !name.toByteArray.data.toList.contains 35) : renderer.Plain := by
  intro property known inside
  have named : property ∈ renderer.vocabulary.style ++ renderer.vocabulary.kinds.flatMap fun entry =>
      entry.2.map KnownProperty.name := by
    refine List.mem_append.mpr ?_
    unfold target? Vocabulary.target? at known
    by_cases isStyle : renderer.vocabulary.style.contains property
    · exact Or.inl (by simpa using isStyle)
    · right
      rw [if_neg isStyle, Option.isSome_map, List.find?_isSome] at known
      obtain ⟨entry, isEntry, named⟩ := known
      obtain ⟨property', isKnown, same⟩ := List.any_eq_true.mp named
      obtain rfl : property'.name = property := by simpa using same
      exact List.mem_flatMap.mpr ⟨entry, isEntry, List.mem_map_of_mem isKnown⟩
  have absent := List.all_eq_true.mp names property named
  simp [hash_mem_bytes inside] at absent

theorem ofName_plain (name : String) : (ofName name).Plain := by
  refine plain_of_names ?_
  unfold ofName
  split
  · decide +kernel
  · decide +kernel

end Renderer

namespace FeatureStyle
open Declaration

variable {context : Context} {layer : String} {before after : Shared}

theorem styleName_injective {attachment other : String} (same : styleName layer attachment = styleName layer other) :
    attachment = other := by
  have longer : ∀ {name : String}, layer ≠ layer ++ "-" ++ name := by
    intro name equal
    have lengths := congrArg String.length equal
    simp only [String.length_append] at lengths
    have one : "-".length = 1 := rfl
    omega
  unfold styleName at same
  split at same <;> split at same
  · simp_all
  · exact absurd same longer
  · exact absurd same.symm longer
  · simpa [String.ext_iff] using same

theorem ofStyle_ok {name : String} {style : Style} {feature : FeatureStyle}
    (ran : (ofStyle context name style).run context.scope before = (.ok feature, after)) :
    feature.name = name ∧ ∃ start,
      (rulesOf context Remaining.empty style.definitions).run context.scope start = (.ok feature.rules, after) := by
  obtain ⟨mode, second, -, ran⟩ := Job.bind_ok ran
  obtain ⟨settings, third, -, ran⟩ := Job.bind_ok ran
  obtain ⟨rules, fourth, ranRules, ran⟩ := Job.bind_ok ran
  obtain ⟨rfl, rfl⟩ := Job.pure_ok ran
  exact ⟨rfl, third, ranRules⟩

def Made (context : Context) (layer : String) (last : Shared) (style : Style) (feature : FeatureStyle) : Prop :=
  ∃ mode start late, late.Extends last ∧
    (ofStyle context (styleName layer style.attachment) (style.fold mode)).run context.scope start = (.ok feature, late)

theorem ofStyles_cons {style : Style} {rest : List Style} {features : List FeatureStyle}
    (ran : (ofStyles context layer (style :: rest)).run context.scope before = (.ok features, after)) :
    ∃ mode second feature third others, style.filterMode.run context.scope before = (.ok mode, second) ∧
      (ofStyle context (styleName layer style.attachment) (style.fold mode)).run context.scope second = (.ok feature, third) ∧
      (ofStyles context layer rest).run context.scope third = (.ok others, after) ∧
      features = if feature.rules.isEmpty then others else feature :: others := by
  obtain ⟨mode, second, ranMode, ran⟩ := Job.bind_ok ran
  obtain ⟨feature, third, ranHere, ran⟩ := Job.bind_ok ran
  obtain ⟨others, fourth, ranRest, ran⟩ := Job.bind_ok ran
  obtain ⟨rfl, rfl⟩ := Job.pure_ok ran
  exact ⟨mode, second, feature, third, others, ranMode, ranHere, ranRest, rfl⟩

theorem ofStyles_ok {styles : List Style} {features : List FeatureStyle}
    (ran : (ofStyles context layer styles).run context.scope before = (.ok features, after)) :
    ∃ made, List.Forall₂ (Made context layer after) styles made ∧
      features = made.filter fun feature => !feature.rules.isEmpty := by
  induction styles generalizing before features with
  | nil =>
    obtain ⟨rfl, -⟩ := Job.pure_ok ran
    exact ⟨[], .nil, rfl⟩
  | cons style rest ih =>
    obtain ⟨mode, second, feature, third, others, -, ranHere, ranRest, rfl⟩ := ofStyles_cons ran
    obtain ⟨made, each, rfl⟩ := ih ranRest
    refine ⟨feature :: made, .cons ⟨mode, _, third, Job.run_extends ranRest, ranHere⟩ each, ?_⟩
    cases empty : feature.rules.isEmpty <;> simp [empty]

/-- The rules that cover a level in the feature styles with a name. -/
def covering (features : List FeatureStyle) (name : String) (level : Nat) : List Rule :=
  (features.filter fun feature => feature.name == name).flatMap fun feature =>
    feature.rules.filter fun rule => rule.span.covers level

theorem covering_filter (features : List FeatureStyle) (name : String) (level : Nat) :
    covering (features.filter fun feature => !feature.rules.isEmpty) name level = covering features name level := by
  induction features with
  | nil => rfl
  | cons feature rest ih =>
    rw [List.filter_cons]
    cases empty : feature.rules.isEmpty with
    | false =>
      by_cases named : feature.name = name
      · simpa [covering, named] using ih
      · simpa [covering, named] using ih
    | true =>
      have noRules : feature.rules = [] := by simpa using empty
      by_cases named : feature.name = name
      · simpa [covering, named, noRules] using ih
      · simpa [covering, named] using ih

theorem made_draw {definitions : List Definition} {attachment : String}
    (apart : ToldApart context.renderer.target? (definitions.flatMap Definition.declarations))
    (unfiltered : ∀ definition ∈ definitions, definition.filters = FilterSet.empty)
    (alike : ∀ definition ∈ definitions, definition.attachment = attachment) {feature : FeatureStyle}
    (made : Made context layer after ⟨attachment, Inheritance.completedAll definitions⟩ feature) {level : Nat}
    (isLevel : level < Zoom.levels) :
    Rule.Draw context after none level feature.rules
      (Slice.due? context.renderer.target? level (definitions.flatMap Definition.declarations)) := by
  obtain ⟨mode, start, late, grown, ran⟩ := made
  obtain ⟨-, begun, ranRules⟩ := ofStyle_ok ran
  have noFilters := Inheritance.completedAll_filters unfiltered
  -- in both modes the rules are those of the first definitions of the style
  have begins : ∃ count, 0 < count ∧ (Style.fold ⟨attachment, Inheritance.completedAll definitions⟩ mode).definitions =
      (Inheritance.completedAll definitions).take count := by
    cases mode with
    | first => exact ⟨1, Nat.one_pos, Style.fold_first_unfiltered noFilters⟩
    | all => exact ⟨(Inheritance.completedAll definitions).length + 1, Nat.succ_pos _, (List.take_of_length_le (Nat.le_succ _)).symm⟩
  obtain ⟨count, positive, same⟩ := begins
  rw [same] at ranRules
  have draw := rulesOf_draw isLevel (fun definition inside => noFilters definition (List.mem_of_mem_take inside)) ranRules
  rw [Remaining.get_empty, Zoom.contains_all, decide_eq_true isLevel, if_pos rfl,
    Inheritance.findSome?_due apart alike positive (rulesOf_known ranRules)] at draw
  exact draw.later grown

theorem covers_of_draw {level : Nat} {rules : List Rule} {declarations : List Declaration}
    (draw : Rule.Draw context after none level rules (Slice.due? context.renderer.target? level declarations)) :
    ∃ symbolizers,
      (Group.symbolizers context (Group.drawnAt context.renderer.target? level declarations)).run context.scope after =
        (.ok symbolizers, after) ∧
      ((∀ declaration ∈ declarations, ¬ declaration.drawsAt context.renderer.target? level) →
        rules.filter (fun rule => rule.span.covers level) = []) ∧
      (symbolizers.any Symbolizer.isEnabled = false → rules.filter (fun rule => rule.span.covers level) = []) ∧
      (symbolizers.any Symbolizer.isEnabled →
        ∃ rule, rules.filter (fun rule => rule.span.covers level) = [rule] ∧ rule.symbolizers = symbolizers) := by
  cases due : Slice.due? context.renderer.target? level declarations with
  | none =>
    rw [due] at draw
    have nothing : rules.filter (fun rule => rule.span.covers level) = [] := List.map_eq_nil_iff.mp draw
    have noGroups : Group.drawnAt context.renderer.target? level declarations = [] := by
      refine Group.drawnAt_eq_nil.mpr (List.filter_eq_nil_iff.mpr ?_)
      exact List.find?_eq_none.mp (Option.map_eq_none_iff.mp due)
    exact ⟨[], by rw [noGroups, Group.symbolizers_nil], fun _ => nothing, fun _ => nothing, by simp⟩
  | some slice =>
    obtain ⟨lead, isLead, rfl⟩ := Option.map_eq_some_iff.mp due
    rw [due] at draw
    obtain ⟨symbolizers, built, drawn⟩ := draw
    refine ⟨symbolizers, built, fun hidden => ?_, fun disabled => ?_, fun enabled => ?_⟩
    · exact absurd (List.find?_some isLead) (hidden lead (List.mem_of_find?_eq_some isLead))
    · rw [disabled] at drawn
      exact List.map_eq_nil_iff.mp drawn
    · rw [if_pos enabled] at drawn
      obtain ⟨rule, same, rest⟩ := List.map_eq_singleton_iff.mp drawn
      exact ⟨rule, same, congrArg (·.2.2) rest⟩

theorem sort_filter_singleton {styles left : List Style} {keep : Style → Bool} (few : left.length ≤ 1)
    (kept : styles.filter keep = left) : (Style.sort styles).filter keep = left := by
  have same := (List.mergeSort_perm styles fun a b => decide (a.index ≤ b.index)).filter keep
  rw [kept] at same
  cases left with
  | nil => exact same.eq_nil
  | cons style rest =>
    obtain rfl : rest = [] := by simpa using few
    exact same.eq_singleton

/-- What the definitions of an attachment declare, in cascade order. -/
def declaredFor (definitions : List Definition) (attachment : String) : List Declaration :=
  (definitions.filter fun definition => definition.attachment == attachment).flatMap Definition.declarations

/-- An attachment draws a level in one rule, with the symbolizers of the first visible declarations of each instance, kind
and property, and in none where nothing is visible or nothing can draw. Built again after the run, these symbolizers come
out the same. -/
def Cascades (context : Context) (layer : String) (after : Shared) (definitions : List Definition)
    (features : List FeatureStyle) (attachment : String) (level : Nat) : Prop :=
  ∃ symbolizers,
    (Group.symbolizers context (Group.drawnAt context.renderer.target? level (declaredFor definitions attachment))).run
      context.scope after = (.ok symbolizers, after) ∧
    ((∀ declaration ∈ declaredFor definitions attachment, ¬ declaration.drawsAt context.renderer.target? level) →
      covering features (styleName layer attachment) level = []) ∧
    (symbolizers.any Symbolizer.isEnabled = false → covering features (styleName layer attachment) level = []) ∧
    (symbolizers.any Symbolizer.isEnabled → ∃ rule,
      covering features (styleName layer attachment) level = [rule] ∧ rule.symbolizers = symbolizers)

/-- Without filters the feature styles of a layer are the cascade, level by level, for every attachment whose declarations
are told apart by their ids, as the known renderers tell all of them. -/
theorem ofLayer_cascade : (∀ name, (Renderer.ofName name).Separable) ∧
    (∀ renderer : Renderer, renderer.Separable → ∀ declarations, ToldApart renderer.target? declarations) ∧
    ∀ {context : Context} {layer : String} {definitions : List Definition} {before after : Shared}
      {features : List FeatureStyle}, (∀ definition ∈ definitions, definition.filters = FilterSet.empty) →
      (ofLayer context layer definitions).run context.scope before = (.ok features, after) →
      (∀ feature ∈ features, feature.rules ≠ []) ∧
        ∀ attachment, ToldApart context.renderer.target? (declaredFor definitions attachment) →
          ∀ level, level < Zoom.levels → Cascades context layer after definitions features attachment level := by
  refine ⟨fun name => (Renderer.ofName_plain name).separable, fun renderer separable => separable.toldApart, ?_⟩
  intro context layer definitions before after features unfiltered ran
  obtain ⟨styles, between, isInherited, ran⟩ := Job.bind_ok ran
  obtain ⟨inherited, rfl⟩ := Job.ofExcept_ok isInherited
  obtain ⟨made, each, rfl⟩ := ofStyles_ok ran
  refine ⟨fun feature kept => by simpa using (List.mem_filter.mp kept).2, fun attachment apart level isLevel => ?_⟩
  have own : List.Forall₂ (Made context layer after)
      ((Style.sort styles).filter fun style => style.attachment == attachment)
      (made.filter fun feature => feature.name == styleName layer attachment) := by
    refine List.rel_filter (fun style feature isMade => ?_) each
    obtain ⟨mode, start, late, -, ranStyle⟩ := isMade
    simp only [beq_iff_eq, (ofStyle_ok ranStyle).1]
    exact ⟨fun same => congrArg _ same, styleName_injective⟩
  have styleHere := Style.inherit_unfiltered unfiltered inherited attachment
  have alike : ∀ definition ∈ definitions.filter (fun definition => definition.attachment == attachment),
      definition.attachment = attachment ∧ definition.filters = FilterSet.empty := by
    intro definition inside
    obtain ⟨isDefinition, isOwn⟩ := List.mem_filter.mp inside
    exact ⟨by simpa using isOwn, unfiltered definition isDefinition⟩
  rw [Cascades, covering_filter, covering]
  by_cases declares : attachment ∈ definitions.map Definition.attachment
  · rw [if_pos declares, Inheritance.completedAll_filter] at styleHere
    rw [sort_filter_singleton (by simp) styleHere] at own
    obtain ⟨feature, others, isMade, noOthers, same⟩ := List.forall₂_cons_left_iff.mp own
    obtain rfl := List.forall₂_nil_left_iff.mp noOthers
    rw [same, List.flatMap_singleton]
    exact covers_of_draw (made_draw apart (fun definition inside => (alike definition inside).2)
      (fun definition inside => (alike definition inside).1) isMade isLevel)
  · have noOwn : definitions.filter (fun definition => definition.attachment == attachment) = [] := by
      refine List.filter_eq_nil_iff.mpr fun definition inside isOwn => declares ?_
      exact List.mem_map.mpr ⟨definition, inside, by simpa using isOwn⟩
    have nothing : declaredFor definitions attachment = [] := by rw [declaredFor, noOwn, List.flatMap_nil]
    rw [if_neg declares] at styleHere
    rw [sort_filter_singleton (by simp) styleHere, List.forall₂_nil_left_iff] at own
    rw [own, nothing]
    have noDrawing : Rule.Draw context after none level [] (Slice.due? context.renderer.target? level []) := rfl
    exact covers_of_draw noDrawing

def lineCap (levels : Zoom) (cap : String) (index : Nat) : Definition where
  elements := []
  filters := FilterSet.empty
  zoom := levels
  attachment := defaultAttachment
  specificity := ⟨1, 0, 0, index⟩
  place := ⟨"roads.mss", index⟩
  declarations :=
    [⟨"line-cap", defaultInstance, ⟨index, .keyword cap, ⟨"roads.mss", index⟩⟩, index, ⟨"roads.mss", index⟩, levels⟩]

def caps : List Definition := [lineCap (Zoom.range 10 22) "round" 1, lineCap Zoom.all "square" 0]

def capContext : Context := ⟨Scope.empty, Renderer.ofName "mapnik", true⟩

theorem ofLayer_cascade_caps : ∃ features after,
    (ofLayer capContext "roads" caps).run capContext.scope Shared.empty = (.ok features, after) ∧
    (∀ feature ∈ features, feature.rules ≠ []) ∧
    ∀ attachment level, level < Zoom.levels → Cascades capContext "roads" after caps features attachment level := by
  have succeeds : ((ofLayer capContext "roads" caps).run capContext.scope Shared.empty).1.isOk := by decide +kernel
  have unfiltered : ∀ definition ∈ caps, definition.filters = FilterSet.empty := by simp [caps, lineCap]
  rcases ran : (ofLayer capContext "roads" caps).run capContext.scope Shared.empty with ⟨result, after⟩
  rw [ran] at succeeds
  cases result with
  | error error => exact absurd succeeds Bool.false_ne_true
  | ok features =>
    obtain ⟨known, apart, cascade⟩ := ofLayer_cascade
    obtain ⟨kept, drawn⟩ := cascade unfiltered ran
    exact ⟨features, after, rfl, kept, fun attachment => drawn attachment (apart _ (known "mapnik") _)⟩

/-- A renderer that draws plain lines and knows a width, also that of a casing. -/
def casingRenderer : Renderer :=
  { Renderer.ofName "mapnik" with
    vocabulary := ⟨[], [(.line, [optional "width", optional "casing#width"])]⟩
    symbolizer := fun kind _ => (Renderer.ofName "mapnik").symbolizer kind [] }

def casingContext : Context := ⟨Scope.empty, casingRenderer, false⟩

def lineWidth (instanceName property width : String) (index : Nat) : Declaration :=
  ⟨property, instanceName, ⟨index, .keyword width, ⟨"roads.mss", 1⟩⟩, index, ⟨"roads.mss", 1⟩, Zoom.all⟩

def unfilteredLine (declaration : Declaration) : Definition where
  elements := [.id "r"]
  filters := FilterSet.empty
  zoom := Zoom.all
  attachment := defaultAttachment
  specificity := ⟨1, 0, 0, declaration.index⟩
  place := declaration.place
  declarations := [declaration]

def widths : List Declaration := [lineWidth "a" "casing#width" "2" 3, lineWidth "a#casing" "width" "1" 1]

theorem ofLayer_cascade_casing : ∃ features after,
    (ofLayer casingContext "r" (widths.map unfilteredLine)).run casingContext.scope Shared.empty = (.ok features, after) ∧
    (∀ definition ∈ widths.map unfilteredLine, definition.filters = FilterSet.empty) ∧
    ¬ Cascades casingContext "r" after (widths.map unfilteredLine) features defaultAttachment 0 := by
  have drawn : ((ofLayer casingContext "r" (widths.map unfilteredLine)).run casingContext.scope Shared.empty).1.toOption.map
      (fun features => (covering features (styleName "r" defaultAttachment) 0).map fun rule => rule.symbolizers.length) =
      some [1] := by decide +kernel
  have inSource : Group.sort (Group.drawnAt casingContext.renderer.target? 0
      (declaredFor (widths.map unfilteredLine) defaultAttachment)) =
      [⟨"a#casing", .line, [lineWidth "a#casing" "width" "1" 1]⟩, ⟨"a", .line, [lineWidth "a" "casing#width" "2" 3]⟩] :=
    Group.sort_pair (a := ⟨"a", .line, [lineWidth "a" "casing#width" "2" 3]⟩) (by decide)
  have declared : ((Group.symbolizers casingContext (Group.drawnAt casingContext.renderer.target? 0
      (declaredFor (widths.map unfilteredLine) defaultAttachment))).run casingContext.scope
        ((ofLayer casingContext "r" (widths.map unfilteredLine)).run casingContext.scope Shared.empty).2).1.toOption.map
      (fun symbolizers => (symbolizers.length, symbolizers.any Symbolizer.isEnabled)) = some (2, true) := by
    rw [Group.symbolizers, inSource]
    decide +kernel
  rcases ran : (ofLayer casingContext "r" (widths.map unfilteredLine)).run casingContext.scope Shared.empty with ⟨result, after⟩
  rw [ran] at drawn declared
  cases result with
  | error error => exact absurd drawn nofun
  | ok features =>
    refine ⟨features, after, rfl, List.forall_mem_map.mpr fun declaration _ => rfl, ?_⟩
    rintro ⟨symbolizers, built, -, -, enabled⟩
    rw [built] at declared
    obtain ⟨two, canDraw⟩ := Prod.mk.inj (Option.some.inj declared)
    obtain ⟨rule, covers, same⟩ := enabled canDraw
    have one : [rule.symbolizers.length] = [1] := by
      rw [← List.map_singleton (f := fun rule : Rule => rule.symbolizers.length), ← covers]
      exact Option.some.inj drawn
    rw [same, two] at one
    exact absurd one (by decide)

end FeatureStyle
end MapStyle
