import MapStyle.Proofs.FeatureStyle.Drawing
import MapStyle.Proofs.Symbolizer.Outlines
/-!
Definitions in sequence, which share the levels that remain for each filter text. Every one of them draws the levels that
it finds left in one rule each, so that for one filter text the first definition with something to draw at a level has it.
-/
namespace MapStyle

namespace Group
variable {context : Context} {before after : Shared}

theorem symbolizer?_enabled {group : Group} {built : Option Symbolizer}
    (ran : (symbolizer? context group).run context.scope before = (.ok built, after)) :
    ∀ symbolizer ∈ built, symbolizer.isEnabled := by
  unfold symbolizer? at ran
  split at ran
  · obtain ⟨rfl, -⟩ := Job.pure_ok ran
    simp
  · obtain ⟨properties, between, -, ran⟩ := Job.bind_ok ran
    split at ran
    · exact absurd ran Job.throw_ok
    · obtain ⟨made, second, -, ran⟩ := Job.bind_ok ran
      obtain ⟨registered, third, -, ran⟩ := Job.bind_ok ran
      obtain ⟨rfl, -⟩ := Job.pure_ok ran
      intro symbolizer isBuilt
      by_cases enabled : registered.isEnabled
      · obtain rfl : registered = symbolizer := by simpa [enabled] using isBuilt
        exact enabled
      · simp [enabled] at isBuilt

theorem inOrder_enabled {groups : List Group} {symbolizers : List Symbolizer}
    (ran : (inOrder context groups).run context.scope before = (.ok symbolizers, after)) :
    ∀ symbolizer ∈ symbolizers, symbolizer.isEnabled := by
  induction groups generalizing before symbolizers with
  | nil =>
    obtain ⟨rfl, -⟩ := Job.pure_ok ran
    simp
  | cons group rest ih =>
    obtain ⟨here, between, ranHere, ran⟩ := Job.bind_ok ran
    obtain ⟨others, late, ranRest, ran⟩ := Job.bind_ok ran
    obtain ⟨rfl, rfl⟩ := Job.pure_ok ran
    rw [List.forall_mem_append]
    constructor
    · intro symbolizer isHere
      exact symbolizer?_enabled ranHere symbolizer (Option.mem_toList.mp isHere)
    · exact ih ranRest

theorem symbolizers_enabled {groups : List Group} {symbolizers : List Symbolizer}
    (ran : (Group.symbolizers context groups).run context.scope before = (.ok symbolizers, after)) :
    ∀ symbolizer ∈ symbolizers, symbolizer.isEnabled := by
  obtain ⟨built, between, ranInOrder, ran⟩ := Job.bind_ok ran
  obtain ⟨rfl, -⟩ := Job.pure_ok ran
  exact Symbolizer.mergeOutlines_enabled (inOrder_enabled ranInOrder)

end Group

namespace Remaining

theorem get_set_of_ne {filters other : String} (differ : other ≠ filters) (remaining : Remaining) (zoom : Zoom) :
    (remaining.set filters zoom).get other = remaining.get other := by
  have kept : (remaining.entries.filter fun entry => entry.1 != filters).lookup other = remaining.entries.lookup other := by
    induction remaining.entries with
    | nil => rfl
    | cons entry rest ih =>
      obtain ⟨text, levels⟩ := entry
      by_cases isFilters : text = filters
      · have apart : (other == text) = false := by simpa [isFilters] using differ
        rw [List.filter_cons_of_neg (by simp [isFilters]), ih, List.lookup_cons, apart]
      · rw [List.filter_cons_of_pos (by simpa using isFilters), List.lookup_cons, List.lookup_cons, ih]
  have apart : (other == filters) = false := by simpa using differ
  rw [get, set, List.lookup_cons, apart, get]
  exact congrArg (·.getD Zoom.all) kept

end Remaining

namespace Rule
open Declaration

/-- A definition in a sequence, with the levels that it found left and what came of it. -/
structure Step where
  definition : Definition
  found : Remaining
  outcome : Outcome

namespace Step

def text (step : Step) : String := step.definition.filters.text

/-- The declarations that are visible at a level, those for the style as a whole aside. -/
def visible (context : Context) (level : Nat) (step : Step) : List Declaration :=
  step.definition.declarations.filter fun declaration =>
    !FeatureStyle.isStyleProperty context declaration && declaration.zoom.contains level

def covering (level : Nat) (step : Step) : List Rule := step.outcome.rules.filter fun rule => rule.span.covers level

end Step

/-- The steps of definitions one after the other, each with the levels that those before it left. -/
def steps (context : Context) : List Definition → Remaining → Task (List Step)
  | [], _ => pure []
  | definition :: rest, found => do
    let outcome ← ofDefinition context definition found
    return ⟨definition, found, outcome⟩ :: (← steps context rest outcome.remaining)

/-- What a step does at a level. It draws nothing where the level is not left or nothing is visible; otherwise the
symbolizers of the first visible declaration of each instance, kind and property, in one rule under the name of the first
of all, and nothing if there are no such symbolizers. It leaves the level if nothing is visible. -/
structure Step.Slices (context : Context) (last : Shared) (level : Nat) (step : Step) : Prop where
  idle : (step.found.get step.text).contains level = false ∨ step.visible context level = [] → step.covering level = []
  drawn : ∀ lead others, (step.found.get step.text).contains level → step.visible context level = lead :: others →
    ∃ filter symbolizers, filterExpression context.renderer step.definition = .ok filter ∧
      (Group.symbolizers context (Group.gather context.renderer.target?
        ((step.visible context level).foldl keepFirst []))).run context.scope last = (.ok symbolizers, last) ∧
      (symbolizers = [] → step.covering level = []) ∧
      (symbolizers ≠ [] → ∃ span, step.covering level = [⟨lead.instanceName, filter, span, symbolizers⟩])
  left : (step.outcome.remaining.get step.text).contains level =
    ((step.found.get step.text).contains level && (step.visible context level).isEmpty)
  others : ∀ text, text ≠ step.text → step.outcome.remaining.get text = step.found.get text

variable {context : Context} {level : Nat} {before after : Shared} {step : Step}

theorem Step.visible_eq (known : ∀ declaration ∈ step.definition.declarations,
    (context.renderer.target? declaration.property).isSome) :
    step.visible context level = step.definition.declarations.filter (drawsAt context.renderer.target? level) := by
  apply List.filter_congr
  intro declaration member
  obtain ⟨target, isTarget⟩ := Option.isSome_iff_exists.mp (known declaration member)
  cases target <;> simp [FeatureStyle.isStyleProperty, drawsAt, owner?, isTarget]

theorem Step.due?_eq (known : ∀ declaration ∈ step.definition.declarations,
    (context.renderer.target? declaration.property).isSome) :
    Slice.due? context.renderer.target? level step.definition.declarations =
      (step.visible context level).head?.map fun lead =>
        (lead, Group.gather context.renderer.target? ((step.visible context level).foldl keepFirst [])) := by
  rw [Slice.due?, ← List.head?_filter, Step.visible_eq known]
  rfl

theorem Step.slices (isLevel : level < Zoom.levels)
    (ran : (ofDefinition context step.definition step.found).run context.scope before = (step.outcome, after))
    (succeeded : step.outcome.error = none) {last : Shared} (grown : after.Extends last) :
    step.Slices context last level := by
  obtain ⟨known, filter, left, -, -, isRemaining⟩ := ofDefinition_ok ran succeeded
  obtain ⟨filter, isFilter, draw, remains⟩ := ofDefinition_draw isLevel ran succeeded
  have drawLast := draw.later grown
  rw [Step.due?_eq known] at drawLast remains
  constructor
  · rintro (gone | hidden)
    · rw [show step.definition.filters.text = step.text from rfl, gone] at drawLast
      exact List.map_eq_nil_iff.mp drawLast
    · rw [hidden] at drawLast
      have nothing : Draw context last filter level step.outcome.rules none := by simpa using drawLast
      exact List.map_eq_nil_iff.mp nothing
  · intro lead others isLeft shows
    rw [show step.definition.filters.text = step.text from rfl, isLeft, if_pos rfl, shows] at drawLast
    obtain ⟨symbolizers, built, covers⟩ := drawLast
    refine ⟨filter, symbolizers, isFilter, by rw [shows]; exact built, fun isNil => ?_, fun nonempty => ?_⟩
    · rw [isNil] at covers
      exact List.map_eq_nil_iff.mp covers
    · obtain ⟨first, rest, rfl⟩ := List.exists_cons_of_ne_nil nonempty
      -- symbolizers that are built can draw, so that a first one is enough for a rule
      have enabled := Group.symbolizers_enabled built first List.mem_cons_self
      rw [List.any_cons, enabled, Bool.true_or, if_pos rfl] at covers
      obtain ⟨rule, same, fields⟩ := List.map_eq_singleton_iff.mp covers
      obtain ⟨sameName, sameRest⟩ := Prod.mk.inj fields
      obtain ⟨sameFilter, sameSymbolizers⟩ := Prod.mk.inj sameRest
      exact ⟨rule.span, by rw [Step.covering, same, ← sameName, ← sameFilter, ← sameSymbolizers]⟩
  · rw [show step.text = step.definition.filters.text from rfl, remains]
    cases step.visible context level <;> simp
  · intro text differ
    rw [isRemaining]
    exact Remaining.get_set_of_ne differ _ _

namespace Step.Slices
variable {last : Shared} {text : String}

theorem gone (slices : step.Slices context last level) (isGone : (step.found.get text).contains level = false) :
    (step.outcome.remaining.get text).contains level = false := by
  by_cases same : text = step.text
  · subst same
    rw [slices.left, isGone, Bool.false_and]
  · rw [slices.others text same, isGone]

theorem keeps (slices : step.Slices context last level) (idle : step.text = text → step.visible context level = []) :
    (step.outcome.remaining.get text).contains level = (step.found.get text).contains level := by
  by_cases same : text = step.text
  · subst same
    rw [slices.left, idle rfl, List.isEmpty_nil, Bool.and_true]
  · rw [slices.others text same]

theorem taken (slices : step.Slices context last level) (covers : step.covering level ≠ []) :
    (step.covering level).length = 1 ∧ (step.outcome.remaining.get step.text).contains level = false := by
  have isLeft : (step.found.get step.text).contains level := by
    by_contra gone
    exact covers (slices.idle (Or.inl (eq_false_of_ne_true gone)))
  cases shows : step.visible context level with
  | nil => exact absurd (slices.idle (Or.inr shows)) covers
  | cons lead others =>
    obtain ⟨filter, symbolizers, -, -, uncovered, covered⟩ := slices.drawn lead others isLeft shows
    obtain ⟨span, same⟩ := covered fun isNil => covers (uncovered isNil)
    constructor
    · rw [same, List.length_singleton]
    · rw [slices.left, shows, List.isEmpty_cons, Bool.and_false]

end Step.Slices

section steps
variable {definitions rest : List Definition} {definition : Definition} {found : Remaining} {taken : List Step}

theorem steps_cons_ran (ran : (steps context (definition :: rest) found).run context.scope before = (taken, after)) :
    ∃ outcome between others, (ofDefinition context definition found).run context.scope before = (outcome, between) ∧
      (steps context rest outcome.remaining).run context.scope between = (others, after) ∧
      taken = ⟨definition, found, outcome⟩ :: others := by
  obtain ⟨outcome, between, ranHere, ran⟩ := Task.bind_ran ran
  obtain ⟨others, late, ranRest, ran⟩ := Task.bind_ran ran
  obtain ⟨rfl, rfl⟩ := Prod.mk.inj ran
  exact ⟨outcome, between, others, ranHere, ranRest, rfl⟩

theorem steps_uncons {first : Step} {others : List Step}
    (ran : (steps context definitions found).run context.scope before = (first :: others, after)) :
    ∃ rest between, first.found = found ∧
      (steps context rest first.outcome.remaining).run context.scope between = (others, after) := by
  cases definitions with
  | nil => exact absurd (congrArg Prod.fst ran) (by rintro ⟨⟩)
  | cons definition rest =>
    obtain ⟨outcome, between, others, -, ranRest, same⟩ := steps_cons_ran ran
    obtain ⟨rfl, rfl⟩ := List.cons_eq_cons.mp same
    exact ⟨rest, between, rfl, ranRest⟩

theorem steps_definitions (ran : (steps context definitions found).run context.scope before = (taken, after)) :
    taken.map Step.definition = definitions := by
  induction definitions generalizing found before taken with
  | nil =>
    obtain ⟨rfl, -⟩ := Prod.mk.inj ran
    rfl
  | cons definition rest ih =>
    obtain ⟨outcome, between, others, -, ranRest, rfl⟩ := steps_cons_ran ran
    rw [List.map_cons, ih ranRest]

theorem steps_slices (isLevel : level < Zoom.levels)
    (ran : (steps context definitions found).run context.scope before = (taken, after))
    (succeeded : ∀ step ∈ taken, step.outcome.error = none) : ∀ step ∈ taken, step.Slices context after level := by
  induction definitions generalizing found before taken with
  | nil =>
    obtain ⟨rfl, -⟩ := Prod.mk.inj ran
    simp
  | cons definition rest ih =>
    obtain ⟨outcome, between, others, ranHere, ranRest, rfl⟩ := steps_cons_ran ran
    obtain ⟨succeededHere, succeededRest⟩ := List.forall_mem_cons.mp succeeded
    rw [List.forall_mem_cons]
    constructor
    · exact Step.slices isLevel ranHere succeededHere (Task.ran_extends ranRest)
    · exact ih ranRest succeededRest

theorem steps_gone {text : String} (ran : (steps context definitions found).run context.scope before = (taken, after))
    (slices : ∀ step ∈ taken, step.Slices context after level) (isGone : (found.get text).contains level = false) :
    ∀ step ∈ taken, step.text = text → step.covering level = [] := by
  induction definitions generalizing found before taken with
  | nil =>
    obtain ⟨rfl, -⟩ := Prod.mk.inj ran
    simp
  | cons definition rest ih =>
    obtain ⟨outcome, between, others, ranHere, ranRest, rfl⟩ := steps_cons_ran ran
    obtain ⟨slicesHere, slicesRest⟩ := List.forall_mem_cons.mp slices
    rw [List.forall_mem_cons]
    constructor
    · rintro rfl
      exact slicesHere.idle (Or.inl isGone)
    · exact ih ranRest slicesRest (slicesHere.gone isGone)

theorem steps_once {text : String} (ran : (steps context definitions found).run context.scope before = (taken, after))
    (slices : ∀ step ∈ taken, step.Slices context after level) :
    ((taken.filter fun step => step.text == text).flatMap (Step.covering level)).length ≤ 1 := by
  induction definitions generalizing found before taken with
  | nil =>
    obtain ⟨rfl, -⟩ := Prod.mk.inj ran
    simp
  | cons definition rest ih =>
    obtain ⟨outcome, between, others, ranHere, ranRest, rfl⟩ := steps_cons_ran ran
    obtain ⟨slicesHere, slicesRest⟩ := List.forall_mem_cons.mp slices
    by_cases isText : Step.text ⟨definition, found, outcome⟩ = text
    · rw [List.filter_cons_of_pos (by simpa using isText), List.flatMap_cons, List.length_append]
      by_cases covers : Step.covering level ⟨definition, found, outcome⟩ = []
      · rw [covers, List.length_nil, Nat.zero_add]
        exact ih ranRest slicesRest
      · -- the level is taken, so that the steps after this one find it gone
        obtain ⟨one, isGone⟩ := slicesHere.taken covers
        have nothing : (others.filter fun step => step.text == text).flatMap (Step.covering level) = [] := by
          apply List.flatMap_eq_nil_iff.mpr
          intro step member
          obtain ⟨isStep, same⟩ := List.mem_filter.mp member
          exact steps_gone ranRest slicesRest (isText ▸ isGone) step isStep (by simpa using same)
        simp [one, nothing]
    · rw [List.filter_cons_of_neg (by simpa using isText)]
      exact ih ranRest slicesRest

theorem steps_first {front back : List Step}
    (ran : (steps context definitions found).run context.scope before = (front ++ step :: back, after))
    (slices : ∀ other ∈ front ++ step :: back, other.Slices context after level)
    (isLeft : (found.get step.text).contains level)
    (idle : ∀ earlier ∈ front, earlier.text = step.text → earlier.visible context level = [])
    (shows : step.visible context level ≠ []) :
    (step.found.get step.text).contains level ∧
      ∀ other ∈ front ++ back, other.text = step.text → other.covering level = [] := by
  induction front generalizing definitions found before with
  | nil =>
    obtain ⟨rest, between, rfl, ranRest⟩ := steps_uncons ran
    obtain ⟨slicesHere, slicesRest⟩ := List.forall_mem_cons.mp slices
    constructor
    · exact isLeft
    -- the step has taken the level, so that those behind it find it gone
    · apply steps_gone ranRest slicesRest
      rw [slicesHere.left, List.isEmpty_eq_false_iff.mpr shows, Bool.and_false]
  | cons first front ih =>
    obtain ⟨rest, between, rfl, ranRest⟩ := steps_uncons ran
    obtain ⟨slicesHere, slicesRest⟩ := List.forall_mem_cons.mp slices
    obtain ⟨idleHere, idleRest⟩ := List.forall_mem_cons.mp idle
    -- a step with nothing to draw at the level leaves it as it was
    have stillLeft : (first.outcome.remaining.get step.text).contains level :=
      (slicesHere.keeps idleHere).trans isLeft
    obtain ⟨finds, apart⟩ := ih ranRest slicesRest stillLeft idleRest
    constructor
    · exact finds
    · rw [List.cons_append, List.forall_mem_cons]
      exact ⟨fun same => slicesHere.idle (Or.inr (idleHere same)), apart⟩

/-- Definitions slice their levels exactly. In a sequence of definitions that succeed, whatever levels remain at first,
each draws at each level what it has to, in one rule; for one filter text no level is drawn by two rules, and a level that
remains at first is drawn by the first definition with something visible there. -/
theorem steps_exact (ran : (steps context definitions found).run context.scope before = (taken, after))
    (succeeded : ∀ step ∈ taken, step.outcome.error = none) :
    taken.map Step.definition = definitions ∧ ∀ level, level < Zoom.levels →
      (∀ step ∈ taken, step.Slices context after level) ∧ ∀ text,
        ((taken.filter fun step => step.text == text).flatMap (Step.covering level)).length ≤ 1 ∧
        ∀ front step back, taken = front ++ step :: back → step.text = text → (found.get text).contains level →
          (∀ earlier ∈ front, earlier.text = text → earlier.visible context level = []) →
          step.visible context level ≠ [] →
          (step.found.get text).contains level ∧
            ∀ other ∈ front ++ back, other.text = text → other.covering level = [] := by
  constructor
  · exact steps_definitions ran
  · intro level isLevel
    have slices := steps_slices isLevel ran succeeded
    constructor
    · exact slices
    · intro text
      constructor
      · exact steps_once ran slices
      · rintro front step back rfl rfl isLeft idle shows
        exact steps_first ran slices isLeft idle shows

end steps

def overlapping : List Definition :=
  let declare (property : String) (value : String) (levels : Zoom) (index : Nat) : Declaration :=
    ⟨property, defaultInstance, ⟨index, .keyword value, ⟨"streets.mss", index⟩⟩, index, ⟨"streets.mss", index⟩, levels⟩
  let define (declarations : List Declaration) (index : Nat) : Definition :=
    ⟨[], FilterSet.empty, Zoom.all, defaultAttachment, ⟨0, 0, 0, index⟩, ⟨"streets.mss", index⟩, declarations⟩
  [define [declare "line-width" "3" (Zoom.range 5 14) 0, declare "line-color" "red" (Zoom.range 8 18) 1,
    declare "line-dasharray" "2,1" (Zoom.range 10 20) 2] 0, define [declare "line-width" "1" Zoom.all 3] 3]

def streets : Context := ⟨Scope.empty, Renderer.ofName "mapnik", true⟩

theorem steps_exact_overlapping : ∃ taken after,
    (steps streets overlapping Remaining.empty).run streets.scope Shared.empty = (taken, after) ∧
    taken.map Step.definition = overlapping ∧ ∀ level, level < Zoom.levels →
      (∀ step ∈ taken, step.Slices streets after level) ∧ ∀ text,
        ((taken.filter fun step => step.text == text).flatMap (Step.covering level)).length ≤ 1 ∧
        ∀ front step back, taken = front ++ step :: back → step.text = text →
          (Remaining.empty.get text).contains level →
          (∀ earlier ∈ front, earlier.text = text → earlier.visible streets level = []) →
          step.visible streets level ≠ [] →
          (step.found.get text).contains level ∧
            ∀ other ∈ front ++ back, other.text = text → other.covering level = [] := by
  have succeeds : ∀ step ∈ ((steps streets overlapping Remaining.empty).run streets.scope Shared.empty).1,
      step.outcome.error.isNone := by decide +kernel
  rcases ran : (steps streets overlapping Remaining.empty).run streets.scope Shared.empty with ⟨taken, after⟩
  rw [ran] at succeeds
  exact ⟨taken, after, rfl, steps_exact ran fun step member => Option.isNone_iff_eq_none.mp (succeeds step member)⟩

end Rule
end MapStyle
