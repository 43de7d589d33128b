import MapStyle.Proofs.Filter.Merging
import MapStyle.Selector
/-!
What a selector means: its elements apply to a layer, its filters accept a feature, and its predicates hold at a zoom
level. Resolving a written selector and combining a nested one with its parent are conjunctions of all three.
-/
namespace MapStyle

def Comparison.relates (op : Comparison) (level bound : Int) : Prop :=
  match op with
  | .equal => level = bound
  | .greater => bound < level
  | .atLeast => bound ≤ level
  | .less => level < bound
  | .atMost => level ≤ bound
  | .different | .regex | .modulo => False

namespace SelectorPart

def applies (layer : String) (classes : List String) : SelectorPart → Prop
  | .element asked => asked.appliesTo layer classes
  | _ => True

/-- Whether a filter, once it is resolved, accepts the feature. -/
def accepts (scope : Scope) (feature : Feature) : SelectorPart → Prop
  | .filter key op value => ∃ filter, Filter.resolve key op value scope = .ok filter ∧ filter.accepts feature
  | _ => True

def covers (scope : Scope) (level : Nat) : SelectorPart → Prop
  | .zoom op value => ∃ text bound, scope.evaluate value = .ok text ∧ Selector.zoomLevel? text = some bound ∧
      op.relates level bound
  | _ => True

/-- A filter that is a comparison with a number of `values` once it is resolved. -/
def ComparesIn (scope : Scope) (values : Set String) : SelectorPart → Prop
  | .filter key op value => ∀ filter, Filter.resolve key op value scope = .ok filter → filter.Compares values
  | _ => True

end SelectorPart

structure WrittenSelector.Sees (scope : Scope) (layer : String) (classes : List String) (feature : Feature) (level : Nat)
    (written : WrittenSelector) : Prop where
  elements : ∀ part ∈ written.parts, part.applies layer classes
  filters : ∀ part ∈ written.parts, part.accepts scope feature
  zoom : ∀ part ∈ written.parts, part.covers scope level

/-- Filters that compare with numbers of `values`, and that accept something together. -/
structure WrittenSelector.Plain (scope : Scope) (values : Set String) (written : WrittenSelector) : Prop where
  compares : ∀ part ∈ written.parts, part.ComparesIn scope values
  consistent : ∃ feature, ∀ part ∈ written.parts, part.accepts scope feature

theorem Zoom.ofComparison_contains {op : Comparison} {bound : Int} {place : Place} {zoom : Zoom}
    (ok : Zoom.ofComparison op bound place = .ok zoom) {level : Nat} (isLevel : level < Zoom.levels) :
    zoom.contains level ↔ op.relates level bound := by
  unfold Zoom.ofComparison at ok
  split at ok
  · cases ok
  · next inRange =>
    have notNegative : 0 ≤ bound := by
      by_contra negative
      simp only [not_le] at negative
      simp [negative] at inRange
    obtain ⟨n, rfl⟩ := Int.eq_ofNat_of_zero_le notNegative
    cases op <;> simp only [reduceCtorEq, Except.ok.injEq] at ok <;> subst ok <;>
      simp [Comparison.relates, isLevel]

namespace Selector
variable {values : Set String} {scope : Scope}

structure Narrowed (values : Set String) (scope : Scope) (parts : List SelectorPart) (before after : Selector) : Prop where
  compares : after.filters.Compares values
  single : before.filters.Single → after.filters.Single
  elements : ∀ layer classes, (∀ element ∈ after.elements, element.appliesTo layer classes) ↔
    (∀ element ∈ before.elements, element.appliesTo layer classes) ∧ ∀ part ∈ parts, part.applies layer classes
  filters : ∀ feature, after.filters.accepts feature ↔
    before.filters.accepts feature ∧ ∀ part ∈ parts, part.accepts scope feature
  zoom : ∀ level < Zoom.levels, after.zoom.contains level ↔
    before.zoom.contains level ∧ ∀ part ∈ parts, part.covers scope level

theorem Narrowed.refl {selector : Selector} (compares : selector.filters.Compares values) :
    Narrowed values scope [] selector selector :=
  ⟨compares, id, by simp, by simp, by simp⟩

theorem Narrowed.cons {part : SelectorPart} {rest : List SelectorPart} {before middle after : Selector}
    (first : Narrowed values scope [part] before middle) (second : Narrowed values scope rest middle after) :
    Narrowed values scope (part :: rest) before after where
  compares := second.compares
  single := second.single ∘ first.single
  elements layer classes := by
    simp only [second.elements, first.elements, List.forall_mem_cons, List.not_mem_nil, false_implies, implies_true,
      and_true, and_assoc]
  filters feature := by
    simp only [second.filters, first.filters, List.forall_mem_cons, List.not_mem_nil, false_implies, implies_true,
      and_true, and_assoc]
  zoom level isLevel := by
    simp only [second.zoom level isLevel, first.zoom level isLevel, List.forall_mem_cons, List.not_mem_nil, false_implies,
      implies_true, and_true, and_assoc]

theorem resolveZoom_ok {op : Comparison} {value : Expression} {zoom : Zoom} (ok : resolveZoom scope op value = .ok zoom) :
    ∃ text bound, scope.evaluate value = .ok text ∧ zoomLevel? text = some bound ∧
      Zoom.ofComparison op bound value.place = .ok zoom := by
  unfold resolveZoom at ok
  cases evaluates : scope.evaluate value with
  | error error => rw [evaluates] at ok; cases ok
  | ok text =>
    rw [evaluates] at ok
    cases reads : zoomLevel? text with
    | none => simp [bind, Except.bind, reads] at ok
    | some bound => exact ⟨text, bound, rfl, reads, by simpa [bind, Except.bind, reads] using ok⟩

theorem covers_iff {op : Comparison} {value : Expression} {zoom : Zoom} (ok : resolveZoom scope op value = .ok zoom)
    {level : Nat} (isLevel : level < Zoom.levels) :
    zoom.contains level ↔ (SelectorPart.zoom op value).covers scope level := by
  obtain ⟨text, bound, evaluates, reads, isZoom⟩ := resolveZoom_ok ok
  rw [Zoom.ofComparison_contains isZoom isLevel]
  constructor
  · exact fun relates => ⟨text, bound, evaluates, reads, relates⟩
  · rintro ⟨again, other, evaluatesAgain, readsAgain, relates⟩
    obtain rfl := Except.ok.inj (evaluates.symm.trans evaluatesAgain)
    obtain rfl := Option.some.inj (reads.symm.trans readsAgain)
    exact relates

variable (one : OneText values)
include one

theorem addPart_spec {selector : Selector} (compares : selector.filters.Compares values) {part : SelectorPart}
    (own : part.ComparesIn scope values) {outcome : Option Selector} (ok : selector.addPart? scope part = .ok outcome) :
    (∃ next, outcome = some next ∧ Narrowed values scope [part] selector next) ∨
      (outcome = none ∧ ∀ feature, selector.filters.accepts feature → ¬ part.accepts scope feature) := by
  cases part with
  | element element =>
    obtain rfl := Except.ok.inj ok
    refine Or.inl ⟨_, rfl, compares, id, fun layer classes => ?_, by simp [SelectorPart.accepts], by simp [SelectorPart.covers]⟩
    rw [List.forall_mem_append, List.forall_mem_singleton, List.forall_mem_singleton, SelectorPart.applies]
  | attachment name =>
    obtain rfl := Except.ok.inj ok
    exact Or.inl ⟨_, rfl, compares, id, by simp [SelectorPart.applies], by simp [SelectorPart.accepts],
      by simp [SelectorPart.covers]⟩
  | filter key op value =>
    cases resolves : Filter.resolve key op value scope with
    | error error => simp only [addPart?, resolves] at ok; cases ok
    | ok filter =>
      simp only [addPart?, resolves] at ok
      obtain rfl := Except.ok.inj ok
      have filterCompares := own filter resolves
      have accepts : ∀ feature, (SelectorPart.filter key op value).accepts scope feature ↔ filter.accepts feature := by
        intro feature
        constructor
        · rintro ⟨again, resolvesAgain, accepted⟩
          exact Except.ok.inj (resolves.symm.trans resolvesAgain) ▸ accepted
        · exact fun accepted => ⟨filter, resolves, accepted⟩
      cases conjoined : selector.filters.conjoin? filter with
      | none =>
        refine Or.inr ⟨rfl, fun feature onSelector onPart => ?_⟩
        exact FilterSet.conjoin_none one compares filterCompares conjoined onSelector ((accepts feature).mp onPart)
      | some filters =>
        obtain ⟨newCompares, single, meaning⟩ := FilterSet.conjoin_some one compares filterCompares conjoined
        refine Or.inl ⟨_, rfl, newCompares, single, by simp [SelectorPart.applies], fun feature => ?_,
          by simp [SelectorPart.covers]⟩
        rw [List.forall_mem_singleton, accepts]
        exact meaning feature
  | zoom op value =>
    cases resolves : resolveZoom scope op value with
    | error error => simp only [addPart?, resolves] at ok; cases ok
    | ok zoom =>
      simp only [addPart?, resolves] at ok
      obtain rfl := Except.ok.inj ok
      refine Or.inl ⟨_, rfl, compares, id, by simp [SelectorPart.applies], by simp [SelectorPart.accepts], ?_⟩
      intro level isLevel
      rw [List.forall_mem_singleton, ← covers_iff resolves isLevel, Zoom.contains_inter, Bool.and_eq_true]

theorem addParts_spec {selector : Selector} (compares : selector.filters.Compares values) {parts : List SelectorPart}
    (own : ∀ part ∈ parts, part.ComparesIn scope values) {outcome : Option Selector}
    (ok : addParts? scope selector parts = .ok outcome) :
    (∃ last, outcome = some last ∧ Narrowed values scope parts selector last) ∨
      (outcome = none ∧ ∀ feature, selector.filters.accepts feature → ¬ ∀ part ∈ parts, part.accepts scope feature) := by
  induction parts generalizing selector with
  | nil =>
    obtain rfl := Except.ok.inj ok
    exact Or.inl ⟨selector, rfl, Narrowed.refl compares⟩
  | cons part rest ih =>
    unfold addParts? at ok
    cases added : selector.addPart? scope part with
    | error error => rw [added] at ok; cases ok
    | ok first =>
      rw [added] at ok
      rcases addPart_spec one compares (own part List.mem_cons_self) added with ⟨next, rfl, narrowed⟩ | ⟨rfl, rejects⟩
      · rcases ih narrowed.compares (fun other inRest => own other (List.mem_cons_of_mem _ inRest)) ok with
          ⟨last, rfl, narrowedRest⟩ | ⟨rfl, rejects⟩
        · exact Or.inl ⟨last, rfl, narrowed.cons narrowedRest⟩
        · refine Or.inr ⟨rfl, fun feature onSelector onParts => ?_⟩
          obtain ⟨onPart, onRest⟩ := List.forall_mem_cons.mp onParts
          exact rejects feature ((narrowed.filters feature).mpr ⟨onSelector, by simpa using onPart⟩) onRest
      · obtain rfl := Except.ok.inj ok
        exact Or.inr ⟨rfl, fun feature onSelector onParts => rejects feature onSelector (onParts part List.mem_cons_self)⟩

omit one in
def Sees (layer : String) (classes : List String) (feature : Feature) (level : Nat) (selector : Selector) : Prop :=
  (∀ element ∈ selector.elements, element.appliesTo layer classes) ∧ selector.filters.accepts feature ∧
    selector.zoom.contains level

theorem resolve_plain {written : WrittenSelector} (plain : written.Plain scope values) {outcome : Option Selector}
    (ok : resolve? scope written = .ok outcome) :
    ∃ selector, outcome = some selector ∧ selector.filters.Compares values ∧ selector.filters.Coherent ∧
      ∀ layer classes feature level, level < Zoom.levels →
        (selector.Sees layer classes feature level ↔ written.Sees scope layer classes feature level) := by
  have nothing : (ofPlace written.place written.index).filters.Compares values := by simp [ofPlace, FilterSet.Compares, FilterSet.empty]
  have accepts : ∀ feature, (ofPlace written.place written.index).filters.accepts feature := by
    simp [ofPlace, FilterSet.accepts, FilterSet.empty]
  obtain ⟨feature, onParts⟩ := plain.consistent
  rcases addParts_spec one nothing plain.compares ok with ⟨selector, rfl, narrowed⟩ | ⟨-, rejects⟩
  · have accepted := (narrowed.filters feature).mpr ⟨accepts feature, onParts⟩
    refine ⟨selector, rfl, narrowed.compares,
      (narrowed.single FilterSet.single_empty).coherent one narrowed.compares accepted, ?_⟩
    intro layer classes feature level isLevel
    rw [Sees, narrowed.elements, narrowed.filters, narrowed.zoom level isLevel]
    have all : (ofPlace written.place written.index).zoom.contains level := by simp [ofPlace, isLevel]
    constructor
    · rintro ⟨⟨-, elements⟩, ⟨-, filters⟩, -, zoom⟩
      exact ⟨elements, filters, zoom⟩
    · rintro ⟨elements, filters, zoom⟩
      exact ⟨⟨by simp [ofPlace], elements⟩, ⟨accepts feature, filters⟩, all, zoom⟩
  · exact absurd onParts (rejects feature (accepts feature))

variable {parent child : Selector} (parentCompares : parent.filters.Compares values)
  (childCompares : child.filters.Compares values)
include parentCompares childCompares

theorem combine_none (combined : parent.combine? child = none) (feature : Feature) :
    ¬ (parent.filters.accepts feature ∧ child.filters.accepts feature) := by
  unfold combine? at combined
  cases outcome : parent.filters.merge child.filters with
  | conflict => exact fun both => FilterSet.merge_conflict one parentCompares childCompares outcome both.1 both.2
  | merged filters => simp [outcome] at combined
  | unchanged => simp [outcome] at combined

theorem combine_some (coherent : child.filters.Coherent) {selector : Selector} (combined : parent.combine? child = some selector) :
    selector.filters.Compares values ∧ ∀ layer classes feature level,
      (selector.Sees layer classes feature level ↔
        parent.Sees layer classes feature level ∧ child.Sees layer classes feature level) := by
  have joined : ∀ filters : FilterSet,
      (∀ feature, filters.accepts feature ↔ parent.filters.accepts feature ∧ child.filters.accepts feature) →
      ∀ layer classes feature level, ((parent.join child filters).Sees layer classes feature level ↔
        parent.Sees layer classes feature level ∧ child.Sees layer classes feature level) := by
    intro filters meaning layer classes feature level
    simp only [Sees, join, List.forall_mem_append, meaning feature, Zoom.contains_inter, Bool.and_eq_true]
    constructor
    · rintro ⟨⟨a, b⟩, ⟨c, d⟩, e, f⟩
      exact ⟨⟨a, c, e⟩, b, d, f⟩
    · rintro ⟨⟨a, c, e⟩, b, d, f⟩
      exact ⟨⟨a, b⟩, ⟨c, d⟩, e, f⟩
  unfold combine? at combined
  cases outcome : parent.filters.merge child.filters with
  | conflict => simp [outcome] at combined
  | merged filters =>
    simp only [outcome, Option.some.injEq] at combined
    subst combined
    obtain ⟨compares, meaning⟩ := FilterSet.merge_merged one parentCompares childCompares coherent outcome
    exact ⟨compares, joined filters meaning⟩
  | unchanged =>
    have implied : ∀ feature, parent.filters.accepts feature → child.filters.accepts feature :=
      fun feature => FilterSet.merge_unchanged one parentCompares childCompares outcome
    simp only [outcome, Option.some.injEq] at combined
    split at combined
    -- a child that repeats its parent is left out, and the parent stands for both
    · next repeats =>
      subst combined
      simp only [Selector.repeats, Bool.and_eq_true, beq_iff_eq] at repeats
      obtain ⟨⟨sameZoom, -⟩, sameElements⟩ := repeats
      refine ⟨parentCompares, fun layer classes feature level => (and_iff_left_of_imp ?_).symm⟩
      rintro ⟨elements, filters, zoom⟩
      refine ⟨sameElements ▸ elements, implied feature filters, ?_⟩
      rw [sameZoom, Zoom.contains_inter, Bool.and_eq_true] at zoom
      exact zoom.2
    · subst combined
      refine ⟨parentCompares, joined parent.filters fun feature => ?_⟩
      exact ⟨fun onParent => ⟨onParent, implied feature onParent⟩, And.left⟩

end Selector
end MapStyle
