import Mathlib
import MapStyle.Nesting
import MapStyle.Proofs.Selector.Meaning
import MapStyle.Proofs.Sheet.Numbering
/-!
Flattening keeps the meaning of nesting. Each definition comes from a chain of rulesets and from selectors that see what
selectors along the chain see together, one of each ruleset.
-/
namespace MapStyle
namespace Nesting
variable {scope : Scope} {values : Set String}

/-- The selectors that a chain of rulesets is combined to, from those of the parent on. -/
inductive Combined (scope : Scope) : Option (List Selector) → List Ruleset → List Selector → Prop where
  | done (selectors : List Selector) : Combined scope (some selectors) [] selectors
  | inside {parents : Option (List Selector)} {ruleset : Ruleset} {chain : List Ruleset} {here deepest : List Selector}
      (resolved : selectors scope parents ruleset.selectors = .ok here) (rest : Combined scope (some here) chain deepest) :
      Combined scope parents (ruleset :: chain) deepest

def ParentsSee (layer : String) (classes : List String) (feature : Feature) (level : Nat) : Option (List Selector) → Prop
  | none => True
  | some parents => ∃ parent ∈ parents, parent.Sees layer classes feature level

def within (child : Selector) : Option (List Selector) → List Selector
  | none => [child]
  | some parents => parents.filterMap fun parent => parent.combine? child

theorem selectors_cons {parents : Option (List Selector)} {written : WrittenSelector} {rest : List WrittenSelector}
    {result : List Selector} (ok : selectors scope parents (written :: rest) = .ok result) :
    ∃ child others, Selector.resolve? scope written = .ok child ∧ selectors scope parents rest = .ok others ∧
      result = (match child with
        | none => []
        | some child => within child parents) ++ others := by
  cases resolves : Selector.resolve? scope written with
  | error error => simp only [selectors, resolves] at ok; cases ok
  | ok child =>
    cases others : selectors scope parents rest with
    | error error => simp only [selectors, resolves, others] at ok; cases ok
    | ok others' =>
      simp only [selectors, resolves, others] at ok
      obtain rfl := Except.ok.inj ok
      refine ⟨child, others', rfl, rfl, ?_⟩
      cases child with
      | none => rfl
      | some child => cases parents <;> rfl

section selectors
variable (one : OneText values)
include one

theorem within_see {parents : Option (List Selector)}
    (compares : ∀ parent ∈ parents.getD [], parent.filters.Compares values) {child : Selector}
    (childCompares : child.filters.Compares values) (coherent : child.filters.Coherent) :
    (∀ selector ∈ within child parents, selector.filters.Compares values) ∧ ∀ layer classes feature level,
      ((∃ selector ∈ within child parents, selector.Sees layer classes feature level) ↔
        ParentsSee layer classes feature level parents ∧ child.Sees layer classes feature level) := by
  cases parents with
  | none => exact ⟨by simpa [within] using childCompares, by simp [within, ParentsSee]⟩
  | some parents =>
    have combine := fun {parent selector : Selector} (isParent : parent ∈ parents)
      (combined : parent.combine? child = some selector) =>
      Selector.combine_some one (compares parent isParent) childCompares coherent combined
    refine ⟨fun selector member => ?_, fun layer classes feature level => ?_⟩
    · obtain ⟨parent, isParent, combined⟩ := List.mem_filterMap.mp member
      exact (combine isParent combined).1
    · constructor
      · rintro ⟨selector, member, seen⟩
        obtain ⟨parent, isParent, combined⟩ := List.mem_filterMap.mp member
        obtain ⟨onParent, onChild⟩ := ((combine isParent combined).2 layer classes feature level).mp seen
        exact ⟨⟨parent, isParent, onParent⟩, onChild⟩
      · rintro ⟨⟨parent, isParent, onParent⟩, onChild⟩
        cases combined : parent.combine? child with
        | none =>
          -- where a parent and the child exclude each other, no feature meets both
          exact absurd ⟨onParent.2.1, onChild.2.1⟩
            (Selector.combine_none one (compares parent isParent) childCompares combined feature)
        | some selector =>
          exact ⟨selector, List.mem_filterMap.mpr ⟨parent, isParent, combined⟩,
            ((combine isParent combined).2 layer classes feature level).mpr ⟨onParent, onChild⟩⟩

theorem selectors_see {parents : Option (List Selector)}
    (compares : ∀ parent ∈ parents.getD [], parent.filters.Compares values) {written : List WrittenSelector}
    (plain : ∀ selector ∈ written, selector.Plain scope values) {result : List Selector}
    (ok : selectors scope parents written = .ok result) :
    (∀ selector ∈ result, selector.filters.Compares values) ∧
      ∀ layer classes feature level, level < Zoom.levels →
        ((∃ selector ∈ result, selector.Sees layer classes feature level) ↔
          ParentsSee layer classes feature level parents ∧
            ∃ selector ∈ written, selector.Sees scope layer classes feature level) := by
  induction written generalizing result with
  | nil =>
    obtain rfl := Except.ok.inj ok
    simp
  | cons head rest ih =>
    obtain ⟨outcome, others, resolves, okRest, rfl⟩ := selectors_cons ok
    obtain ⟨child, rfl, childCompares, coherent, sees⟩ :=
      Selector.resolve_plain one (plain head List.mem_cons_self) resolves
    obtain ⟨othersCompare, othersSee⟩ := ih (fun selector inRest => plain selector (List.mem_cons_of_mem _ inRest)) okRest
    obtain ⟨ownCompare, ownSee⟩ := within_see one compares childCompares coherent
    refine ⟨List.forall_mem_append.mpr ⟨ownCompare, othersCompare⟩, fun layer classes feature level isLevel => ?_⟩
    simp only [List.mem_append, or_and_right, exists_or, List.mem_cons, exists_eq_left]
    rw [ownSee, othersSee layer classes feature level isLevel, ← and_or_left, sees layer classes feature level isLevel]

theorem Combined.see {parents : Option (List Selector)} {chain : List Ruleset} {deepest : List Selector}
    (combined : Combined scope parents chain deepest)
    (compares : ∀ parent ∈ parents.getD [], parent.filters.Compares values)
    (plain : ∀ ruleset ∈ chain, ∀ selector ∈ ruleset.selectors, selector.Plain scope values)
    {layer : String} {classes : List String} {feature : Feature} {level : Nat} (isLevel : level < Zoom.levels) :
    ParentsSee layer classes feature level (some deepest) ↔ ParentsSee layer classes feature level parents ∧
      ∀ ruleset ∈ chain, ∃ selector ∈ ruleset.selectors, selector.Sees scope layer classes feature level := by
  induction combined with
  | done selectors => simp
  | inside resolved rest ih =>
    obtain ⟨hereCompare, hereSee⟩ := selectors_see one compares (plain _ List.mem_cons_self) resolved
    rw [ih (by simpa using hereCompare) fun ruleset inRest => plain ruleset (List.mem_cons_of_mem _ inRest),
      ParentsSee, hereSee layer classes feature level isLevel, List.forall_mem_cons, and_assoc]

end selectors

theorem flatten_ok {parents : Option (List Selector)} {ruleset : Ruleset} {definitions : List Definition}
    (ok : flatten scope parents ruleset = .ok definitions) :
    ∃ here nested, selectors scope parents ruleset.selectors = .ok here ∧
      flattenAll scope (some here) ruleset.children = .ok nested ∧
      definitions = nested ++ ownDefinitions here ruleset.declarations := by
  obtain ⟨written, declarations, children, place⟩ := ruleset
  cases resolved : selectors scope parents written with
  | error error => simp only [flatten, resolved] at ok; cases ok
  | ok here =>
    cases inner : flattenAll scope (some here) children with
    | error error => simp only [flatten, resolved, inner, bind, Except.bind] at ok; cases ok
    | ok nested =>
      simp only [flatten, resolved, inner, bind, Except.bind] at ok
      exact ⟨here, nested, resolved, inner, (Except.ok.inj ok).symm⟩

theorem flattenAll_cons {parents : Option (List Selector)} {ruleset : Ruleset} {rest : List Ruleset}
    {definitions : List Definition} (ok : flattenAll scope parents (ruleset :: rest) = .ok definitions) :
    ∃ here others, flatten scope parents ruleset = .ok here ∧ flattenAll scope parents rest = .ok others ∧
      definitions = here ++ others := by
  cases first : flatten scope parents ruleset with
  | error error => simp only [flattenAll, first] at ok; cases ok
  | ok here =>
    cases others : flattenAll scope parents rest with
    | error error => simp only [flattenAll, first, others] at ok; cases ok
    | ok others' =>
      simp only [flattenAll, first, others] at ok
      exact ⟨here, others', rfl, rfl, (Except.ok.inj ok).symm⟩

theorem flattenAll_mem {parents : Option (List Selector)} {rulesets : List Ruleset} {definitions : List Definition}
    (ok : flattenAll scope parents rulesets = .ok definitions) {ruleset : Ruleset} (member : ruleset ∈ rulesets) :
    ∃ here, flatten scope parents ruleset = .ok here ∧ ∀ definition ∈ here, definition ∈ definitions := by
  induction rulesets generalizing definitions with
  | nil => simp at member
  | cons head rest ih =>
    obtain ⟨here, others, first, okRest, rfl⟩ := flattenAll_cons ok
    rcases List.mem_cons.mp member with rfl | inRest
    · exact ⟨here, first, fun definition inside => List.mem_append_left _ inside⟩
    · obtain ⟨found, okFound, inside⟩ := ih okRest inRest
      exact ⟨found, okFound, fun definition isFound => List.mem_append_right _ (inside definition isFound)⟩

/-- Every chain is combined, and the definitions of its last ruleset are among the flattened ones. -/
theorem flattenAll_chain {parents : Option (List Selector)} {rulesets outer : List Ruleset} {last : Ruleset}
    (chain : Chain rulesets outer last) {definitions : List Definition}
    (ok : flattenAll scope parents rulesets = .ok definitions) :
    ∃ deepest, Combined scope parents (outer ++ [last]) deepest ∧
      ∀ definition ∈ ownDefinitions deepest last.declarations, definition ∈ definitions := by
  induction chain generalizing parents definitions with
  | here member =>
    obtain ⟨found, okFound, inside⟩ := flattenAll_mem ok member
    obtain ⟨here, nested, resolved, -, rfl⟩ := flatten_ok okFound
    exact ⟨here, .inside resolved (.done here), fun definition own => inside _ (List.mem_append_right _ own)⟩
  | under member within ih =>
    obtain ⟨found, okFound, inside⟩ := flattenAll_mem ok member
    obtain ⟨here, nested, resolved, okNested, rfl⟩ := flatten_ok okFound
    obtain ⟨deepest, combined, own⟩ := ih okNested
    exact ⟨deepest, .inside resolved combined,
      fun definition isOwn => inside _ (List.mem_append_left _ (own definition isOwn))⟩

mutual
theorem flatten_source {parents : Option (List Selector)} (ruleset : Ruleset) {definitions : List Definition}
    (ok : flatten scope parents ruleset = .ok definitions) {definition : Definition} (member : definition ∈ definitions) :
    ∃ outer last deepest, Chain [ruleset] outer last ∧ Combined scope parents (outer ++ [last]) deepest ∧
      definition ∈ ownDefinitions deepest last.declarations := by
  obtain ⟨here, nested, resolved, okNested, rfl⟩ := flatten_ok ok
  rcases List.mem_append.mp member with inNested | own
  · obtain ⟨outer, last, deepest, chain, combined, own⟩ := flattenAll_source ruleset.children okNested inNested
    exact ⟨ruleset :: outer, last, deepest, .under (by simp) chain, .inside resolved combined, own⟩
  · exact ⟨[], ruleset, here, .here (by simp), .inside resolved (.done here), own⟩
termination_by sizeOf ruleset
decreasing_by
  cases ruleset
  simp only [Ruleset.children, Ruleset.mk.sizeOf_spec]
  omega

theorem flattenAll_source {parents : Option (List Selector)} (rulesets : List Ruleset) {definitions : List Definition}
    (ok : flattenAll scope parents rulesets = .ok definitions) {definition : Definition}
    (member : definition ∈ definitions) :
    ∃ outer last deepest, Chain rulesets outer last ∧ Combined scope parents (outer ++ [last]) deepest ∧
      definition ∈ ownDefinitions deepest last.declarations := by
  cases rulesets with
  | nil =>
    obtain rfl := Except.ok.inj ok
    simp at member
  | cons head rest =>
    obtain ⟨here, others, first, okRest, rfl⟩ := flattenAll_cons ok
    rcases List.mem_append.mp member with inHere | inOthers
    · obtain ⟨outer, last, deepest, chain, combined, own⟩ := flatten_source head first inHere
      exact ⟨outer, last, deepest, chain.mono (by simp), combined, own⟩
    · obtain ⟨outer, last, deepest, chain, combined, own⟩ := flattenAll_source rest okRest inOthers
      exact ⟨outer, last, deepest, chain.mono (fun _ => List.mem_cons_of_mem _), combined, own⟩
termination_by sizeOf rulesets
end

theorem ownDefinitions_see {selectors : List Selector} {declarations : List Declaration} {declaration : Declaration}
    (declares : declaration ∈ declarations) (isAll : declaration.zoom = Zoom.all) {layer : String} {classes : List String}
    {feature : Feature} {level : Nat} (isLevel : level < Zoom.levels)
    (seen : ParentsSee layer classes feature level (some selectors)) :
    ∃ definition ∈ ownDefinitions selectors declarations, definition.appliesTo layer classes ∧
      definition.filters.accepts feature ∧ ∃ held ∈ definition.declarations, held.zoom.contains level ∧
        { held with zoom := declaration.zoom } = declaration := by
  obtain ⟨selector, member, elements, filters, zoom⟩ := seen
  refine ⟨_, List.mem_map_of_mem member, List.all_eq_true.mpr elements, filters, declaration.restrict selector.zoom,
    List.mem_map_of_mem declares, ?_, rfl⟩
  simp [Declaration.restrict, isAll, zoom, isLevel]

/-- What a definition of a ruleset holds is one of its declarations, at levels that a selector sees. -/
theorem ownDefinitions_source {selectors : List Selector} {declarations : List Declaration} {definition : Definition}
    (own : definition ∈ ownDefinitions selectors declarations) {layer : String} {classes : List String} {feature : Feature}
    {level : Nat} (applies : definition.appliesTo layer classes) (accepts : definition.filters.accepts feature)
    {held : Declaration} (holds : held ∈ definition.declarations) (visible : held.zoom.contains level) :
    ParentsSee layer classes feature level (some selectors) ∧
      ∃ source ∈ declarations, held = { source with zoom := held.zoom } := by
  obtain ⟨selector, member, rfl⟩ := List.mem_map.mp own
  obtain ⟨source, isSource, rfl⟩ := List.mem_map.mp holds
  refine ⟨⟨selector, member, List.all_eq_true.mp applies, accepts, ?_⟩, source, isSource, rfl⟩
  simp only [Declaration.restrict, Zoom.contains_inter, Bool.and_eq_true] at visible
  exact visible.2

end Nesting

/-- Flattening keeps the meaning of nesting: a declaration stands for a feature of a layer at a level in some definition
exactly where each ruleset around it has a selector that sees the feature. -/
theorem Sheet.definitions_see {values : Set String} (one : OneText values) {file css : String}
    {start stop : Reader.Numbering} {sheet : Sheet} (read : Sheet.read file css start = .ok (sheet, stop)) {scope : Scope}
    {definitions : List Definition} (flattened : sheet.definitions scope = .ok definitions)
    (plain : ∀ outer last, Chain sheet.rulesets outer last → ∀ selector ∈ last.selectors, selector.Plain scope values)
    {outer : List Ruleset} {last : Ruleset} (chain : Chain sheet.rulesets outer last) {declaration : Declaration}
    (declares : declaration ∈ last.declarations) (layer : String) (classes : List String) (feature : Feature) {level : Nat}
    (isLevel : level < Zoom.levels) :
    (∃ definition ∈ definitions, definition.appliesTo layer classes ∧ definition.filters.accepts feature ∧
      ∃ held ∈ definition.declarations, held.zoom.contains level ∧ { held with zoom := declaration.zoom } = declaration) ↔
    ∀ ruleset ∈ outer ++ [last], ∃ selector ∈ ruleset.selectors, selector.Sees scope layer classes feature level := by
  obtain ⟨apart, visible⟩ := Sheet.read_fresh read
  have plainAlong : ∀ {outer : List Ruleset} {last : Ruleset}, Chain sheet.rulesets outer last →
      ∀ ruleset ∈ outer ++ [last], ∀ selector ∈ ruleset.selectors, selector.Plain scope values := by
    intro outer last chain ruleset member
    obtain ⟨around, chainAround⟩ := chain.exists_of_mem member
    exact plain around ruleset chainAround
  constructor
  · rintro ⟨definition, isDefinition, applies, accepts, held, holds, isVisible, same⟩
    obtain ⟨outer', last', deepest, chain', combined, own⟩ := Nesting.flattenAll_source _ flattened isDefinition
    obtain ⟨sees, source, isSource, fromSource⟩ := Nesting.ownDefinitions_source own applies accepts holds isVisible
    -- the index of the declaration tells that the definition comes from this chain and from no other
    have sameIndex : declaration.index = source.index := by rw [← same, fromSource]
    obtain ⟨rfl, rfl, -⟩ := chain.unique apart chain' declares isSource sameIndex
    exact ((combined.see one (by simp) (plainAlong chain) isLevel).mp sees).2
  · intro sees
    obtain ⟨deepest, combined, own⟩ := Nesting.flattenAll_chain chain flattened
    have seen := (combined.see one (by simp) (plainAlong chain) isLevel).mpr ⟨trivial, sees⟩
    obtain ⟨definition, isOwn, holds⟩ :=
      Nesting.ownDefinitions_see declares (visible chain declaration declares) isLevel seen
    exact ⟨definition, own definition isOwn, holds⟩

namespace Sheet

def nestedText : String := "#r[a<inf]{x:red;.c{y:blue}}"

def nestedInner : Ruleset :=
  .mk [⟨[.element (.cls "c")], 2, ⟨"roads.mss", 1⟩⟩]
    [⟨"y", defaultInstance, ⟨2, .keyword "blue", ⟨"roads.mss", 1⟩⟩, 3, ⟨"roads.mss", 1⟩, Zoom.all⟩] [] ⟨"roads.mss", 1⟩

def nestedOuter : Ruleset :=
  .mk [⟨[.element (.id "r"), .filter "a" .less ⟨0, .keyword "inf", ⟨"roads.mss", 1⟩⟩], 0, ⟨"roads.mss", 1⟩⟩]
    [⟨"x", defaultInstance, ⟨1, .keyword "red", ⟨"roads.mss", 1⟩⟩, 1, ⟨"roads.mss", 1⟩, Zoom.all⟩] [nestedInner] ⟨"roads.mss", 1⟩

theorem read_nested : Sheet.read "roads.mss" nestedText ⟨0, 0⟩ = .ok (⟨"roads.mss", [], [nestedOuter]⟩, ⟨4, 3⟩) := by
  have lexed : Lexeme.ofChars (LineComment.strip nestedText.toList) =
      [.leaf (.hash "r") 1, .group .square [.leaf (.word "a") 1, .leaf (.mark '<') 1, .leaf (.word "inf") 1] 1,
        .group .curly [.leaf (.word "x") 1, .leaf .colon 1, .leaf (.word "red") 1, .leaf .semicolon 1, .leaf (.mark '.') 1,
          .leaf (.word "c") 1, .group .curly [.leaf (.word "y") 1, .leaf .colon 1, .leaf (.word "blue") 1] 1] 1] := by cbv
  change Reader.readSheet _ _ _ = _
  unfold Reader.readSheet
  rw [lexed]
  cbv

theorem nested_plain (outer : List Ruleset) (last : Ruleset) (chain : Chain [nestedOuter] outer last) :
    ∀ selector ∈ last.selectors, selector.Plain Scope.empty {"inf"} := by
  have resolved : Filter.resolve "a" .less ⟨0, .keyword "inf", ⟨"roads.mss", 1⟩⟩ Scope.empty =
      .ok ⟨"a", .less, "inf", some ⟨0, .keyword "inf", ⟨"roads.mss", 1⟩⟩⟩ := rfl
  have reads : Number.read? (Text.trim "inf") = some (.infinite false) := by decide
  cases chain with
  | here member =>
    obtain rfl := List.mem_singleton.mp member
    intro selector isSelector
    obtain rfl := List.mem_singleton.mp isSelector
    refine ⟨?_, fun _ => 0, ?_⟩
    · refine List.forall_mem_cons.mpr ⟨trivial, List.forall_mem_singleton.mpr fun filter resolves => ?_⟩
      obtain rfl := Except.ok.inj (resolved.symm.trans resolves)
      exact ⟨rfl, by simpa using List.all_eq_true.mp (by decide : "a".toList.all fun c => !Filter.isOperatorChar c), rfl⟩
    · refine List.forall_mem_cons.mpr ⟨trivial, List.forall_mem_singleton.mpr ⟨_, resolved, _, reads, ?_⟩⟩
      exact EReal.zero_lt_top
  | under member inside =>
    obtain rfl := List.mem_singleton.mp member
    cases inside with
    | here memberInside =>
      obtain rfl := List.mem_singleton.mp memberInside
      intro selector isSelector
      obtain rfl := List.mem_singleton.mp isSelector
      exact ⟨List.forall_mem_singleton.mpr trivial, fun _ => 0, List.forall_mem_singleton.mpr trivial⟩
    | under memberInside deeper =>
      obtain rfl := List.mem_singleton.mp memberInside
      cases deeper <;> contradiction

theorem definitions_see_nested : ∃ definitions declaration,
    Sheet.definitions ⟨"roads.mss", [], [nestedOuter]⟩ Scope.empty = .ok definitions ∧ declaration ∈ nestedInner.declarations ∧
      ∀ feature,
        (∃ definition ∈ definitions, definition.appliesTo "r" ["c"] ∧ definition.filters.accepts feature ∧
          ∃ held ∈ definition.declarations, held.zoom.contains 3 ∧ { held with zoom := declaration.zoom } = declaration) ↔
        ∀ ruleset ∈ [nestedOuter] ++ [nestedInner],
          ∃ selector ∈ ruleset.selectors, selector.Sees Scope.empty "r" ["c"] feature 3 := by
  have flattened : ∃ definitions, Sheet.definitions ⟨"roads.mss", [], [nestedOuter]⟩ Scope.empty = .ok definitions :=
    ⟨_, rfl⟩
  obtain ⟨definitions, flattened⟩ := flattened
  have reads : Number.read? (Text.trim "inf") = some (.infinite false) := by decide
  have chain : Chain [nestedOuter] [nestedOuter] nestedInner :=
    .under (List.mem_singleton_self _) (.here (List.mem_singleton_self _))
  have declares : ⟨"y", defaultInstance, ⟨2, .keyword "blue", ⟨"roads.mss", 1⟩⟩, 3, ⟨"roads.mss", 1⟩, Zoom.all⟩ ∈
      nestedInner.declarations := List.mem_singleton_self _
  exact ⟨definitions, _, flattened, declares, fun feature =>
    definitions_see (OneText.singleton reads (by decide)) read_nested flattened nested_plain chain declares "r" ["c"] feature
      (by decide : 3 < Zoom.levels)⟩

end Sheet
end MapStyle
