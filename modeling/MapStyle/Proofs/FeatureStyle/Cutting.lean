import Mathlib.Logic.Relation
import MapStyle.FeatureStyle.Rules
import MapStyle.Renderer.Mapnik.Basic
import MapStyle.Proofs.FeatureStyle.Slices
/-!
Cutting, turn by turn. The loop for a declaration takes a slice in each turn, and nothing counts the turns; yet a turn
always takes a level away, so that the loops of a definition take no more slices than there are levels, and end.
-/
namespace MapStyle
namespace Slice
open Declaration

variable {target : String → Option Target} {lead : Declaration} {declarations : List Declaration} {wanted available : Zoom}

theorem collect_append (groups : List Group) (levels : Zoom) (front back : List Declaration) :
    collect target groups levels (front ++ back) =
      collect target (collect target groups levels front).1 (collect target groups levels front).2 back := by
  fun_induction collect target groups levels front <;> simp_all [collect]

def turn? (target : String → Option Target) (lead : Declaration) (declarations : List Declaration)
    (wanted available : Zoom) : Option Slice :=
  if (wanted.inter available).isEmpty then none
  else
    let found := collect target [] (wanted.inter available) declarations
    if found.1.isEmpty then none else some ⟨lead, found.2, found.1⟩

theorem turn?_eq_some {slice : Slice} (takes : turn? target lead declarations wanted available = some slice) :
    slice.lead = lead ∧ slice.groups ≠ [] ∧ slice.levels.isEmpty = false ∧
      (∀ level, slice.levels.contains level → wanted.contains level ∧ available.contains level) ∧
      (available.diff slice.levels).count < available.count := by
  unfold turn? at takes
  split at takes
  · simp at takes
  · rename_i nonempty
    dsimp only at takes
    split at takes
    · simp at takes
    · rename_i found
      obtain rfl := Option.some.inj takes
      have taken := collect_isEmpty target [] (wanted.inter available) declarations (by simpa using nonempty)
      have within : ∀ level, (collect target [] (wanted.inter available) declarations).2.contains level →
          wanted.contains level ∧ available.contains level := by
        intro level inside
        simpa using collect_subset _ _ _ _ _ inside
      exact ⟨rfl, by simpa using found, taken, within, Zoom.count_diff_lt (fun level inside => (within level inside).2) taken⟩

theorem turn?_eq_none (owned : (lead.owner? target).isSome) (inside : ∀ level, wanted.contains level → lead.zoom.contains level) :
    turn? target lead (lead :: declarations) wanted available = none ↔ (wanted.inter available).isEmpty := by
  constructor
  · intro left
    unfold turn? at left
    split at left
    · assumption
    · rename_i nonempty
      have found : (collect target [] (wanted.inter available) (lead :: declarations)).1 ≠ [] := by
        refine collect_ne_nil owned (fun level isWanted => inside level ?_) (by simpa using nonempty)
        exact (Zoom.contains_inter_iff.mp isWanted).1
      simp [found] at left
  · intro empty
    rw [turn?, if_pos empty]

structure Progress (target : String → Option Target) (lead : Declaration) (declarations : List Declaration)
    (wanted available : Zoom) : Prop where
  /-- While the declarations are collected one after the other, there are levels, and groups from the first on. -/
  collects : (wanted.inter available).isEmpty = false → ∀ front back, declarations = front ++ back →
    let found := collect target [] (wanted.inter available) front
    found.2.isEmpty = false ∧ (front ≠ [] → found.1 ≠ []) ∧
      collect target [] (wanted.inter available) declarations = collect target found.1 found.2 back
  leaves : turn? target lead declarations wanted available = none ↔ (wanted.inter available).isEmpty
  takes : ∀ slice, turn? target lead declarations wanted available = some slice →
    slice.groups ≠ [] ∧ slice.levels.isEmpty = false ∧
      (∀ level, slice.levels.contains level → wanted.contains level ∧ available.contains level) ∧
      (available.diff slice.levels).count < available.count

theorem progress (owned : (lead.owner? target).isSome) (inside : ∀ level, wanted.contains level → lead.zoom.contains level)
    (declarations : List Declaration) (available : Zoom) :
    Progress target lead (lead :: declarations) wanted available where
  collects nonempty front back split := by
    refine ⟨collect_isEmpty _ _ _ _ nonempty, fun begun => ?_, by rw [split, collect_append]⟩
    obtain ⟨first, rest, rfl⟩ := List.exists_cons_of_ne_nil begun
    obtain rfl := List.head_eq_of_cons_eq split
    refine collect_ne_nil owned (fun level isWanted => inside level ?_) nonempty
    exact (Zoom.contains_inter_iff.mp isWanted).1
  leaves := turn?_eq_none owned inside
  takes slice takes := (turn?_eq_some takes).2

/-- How far the cutting of a definition has come: the levels that are not drawn, those available, the declaration whose
loop is on with the levels that it still wants, the declarations ahead, and the slices taken. -/
structure Cutting where
  remaining : Zoom
  available : Zoom
  loop : Option (Declaration × Zoom)
  ahead : List Declaration
  taken : List Slice

namespace Cutting

def start (remaining : Zoom) (declarations : List Declaration) : Cutting := ⟨remaining, Zoom.all, none, declarations, []⟩

/-- One step: a declaration is passed over or its loop begins, or the loop takes a turn or is left. -/
def step? (target : String → Option Target) (cutting : Cutting) : Option Cutting :=
  match cutting.loop with
  | none =>
    match cutting.ahead with
    | [] => none
    | lead :: ahead =>
      if target lead.property = some .style || !cutting.remaining.intersects lead.zoom then some { cutting with ahead }
      else some { cutting with loop := some (lead, lead.zoom), ahead }
  | some (lead, wanted) =>
    match turn? target lead (lead :: cutting.ahead) wanted cutting.available with
    | none => some { cutting with loop := none }
    | some slice =>
      let available := cutting.available.diff slice.levels
      some { cutting with
        remaining := cutting.remaining.diff slice.levels
        available
        loop := some (lead, wanted.inter available)
        taken := cutting.taken ++ [slice] }

/-- The steps from one state to another. -/
def Runs (target : String → Option Target) : Cutting → Cutting → Prop :=
  Relation.ReflTransGen fun before after => before.step? target = some after

variable {cutting after : Cutting}

inductive Stepped (target : String → Option Target) : Cutting → Cutting → Prop where
  | passed {remaining available : Zoom} {ahead : List Declaration} {taken : List Slice} (lead : Declaration) :
      Stepped target ⟨remaining, available, none, lead :: ahead, taken⟩ ⟨remaining, available, none, ahead, taken⟩
  | begun {remaining available : Zoom} {ahead : List Declaration} {taken : List Slice} (lead : Declaration)
      (symbolizes : target lead.property ≠ some .style) :
      Stepped target ⟨remaining, available, none, lead :: ahead, taken⟩
        ⟨remaining, available, some (lead, lead.zoom), ahead, taken⟩
  | left {remaining available : Zoom} {ahead : List Declaration} {taken : List Slice} (lead : Declaration) (wanted : Zoom) :
      Stepped target ⟨remaining, available, some (lead, wanted), ahead, taken⟩ ⟨remaining, available, none, ahead, taken⟩
  | took {remaining available : Zoom} {ahead : List Declaration} {taken : List Slice} (lead : Declaration) (wanted : Zoom)
      (slice : Slice) (takes : turn? target lead (lead :: ahead) wanted available = some slice) :
      Stepped target ⟨remaining, available, some (lead, wanted), ahead, taken⟩
        ⟨remaining.diff slice.levels, available.diff slice.levels,
          some (lead, wanted.inter (available.diff slice.levels)), ahead, taken ++ [slice]⟩

theorem step_stepped (steps : cutting.step? target = some after) : Stepped target cutting after := by
  obtain ⟨remaining, available, loop, ahead, taken⟩ := cutting
  cases loop with
  | none =>
    cases ahead with
    | nil => simp [step?] at steps
    | cons lead ahead =>
      dsimp only [step?] at steps
      split at steps
      · obtain rfl := Option.some.inj steps
        exact .passed lead
      · rename_i passed
        obtain rfl := Option.some.inj steps
        exact .begun lead fun isStyle => passed (by simp [isStyle])
  | some loop =>
    obtain ⟨lead, wanted⟩ := loop
    dsimp only [step?] at steps
    split at steps
    · obtain rfl := Option.some.inj steps
      exact .left lead wanted
    · rename_i slice takes
      obtain rfl := Option.some.inj steps
      exact .took lead wanted slice takes

theorem step_few (steps : cutting.step? target = some after) :
    after.taken.length + after.available.count ≤ cutting.taken.length + cutting.available.count := by
  cases step_stepped steps with
  | passed => exact Nat.le_refl _
  | begun => exact Nat.le_refl _
  | left => exact Nat.le_refl _
  | took lead wanted slice takes =>
    obtain ⟨-, -, -, -, fewer⟩ := turn?_eq_some takes
    rw [List.length_append, List.length_singleton]
    dsimp only
    omega

theorem runs_few (runs : Runs target cutting after) :
    after.taken.length + after.available.count ≤ cutting.taken.length + cutting.available.count := by
  induction runs with
  | refl => exact Nat.le_refl _
  | tail _ steps ih => exact Nat.le_trans (step_few steps) ih

structure Sound (target : String → Option Target) (cutting : Cutting) : Prop where
  known : ∀ declaration ∈ cutting.ahead, (target declaration.property).isSome
  loop : ∀ lead wanted, cutting.loop = some (lead, wanted) → (lead.owner? target).isSome ∧
    ∀ level, wanted.contains level → lead.zoom.contains level

theorem step_sound (sound : cutting.Sound target) (steps : cutting.step? target = some after) : after.Sound target := by
  obtain ⟨known, loop⟩ := sound
  cases step_stepped steps with
  | passed => exact ⟨(List.forall_mem_cons.mp known).2, by simp⟩
  | begun lead symbolizes =>
    obtain ⟨isKnown, knownAhead⟩ := List.forall_mem_cons.mp known
    refine ⟨knownAhead, ?_⟩
    rintro _ _ ⟨⟩
    exact ⟨owned_of_known isKnown symbolizes, fun _ => id⟩
  | left => exact ⟨known, by simp⟩
  | took lead wanted slice takes =>
    obtain ⟨owned, inside⟩ := loop lead wanted rfl
    refine ⟨known, ?_⟩
    rintro _ _ ⟨⟩
    exact ⟨owned, fun level isWanted => inside level (Zoom.contains_inter_iff.mp isWanted).1⟩

theorem runs_sound (sound : cutting.Sound target) (runs : Runs target cutting after) : after.Sound target := by
  induction runs with
  | refl => exact sound
  | tail _ steps ih => exact step_sound ih steps

theorem runs_take (lead : Declaration) (ahead : List Declaration) (wanted available : Zoom) : ∀ (left remaining : Zoom)
    (taken : List Slice), left.inter available = wanted.inter available →
      Runs target ⟨remaining, available, some (lead, left), ahead, taken⟩
        ⟨(take target lead (lead :: ahead) wanted available).1.foldl (fun left slice => left.diff slice.levels) remaining,
          (take target lead (lead :: ahead) wanted available).2, none, ahead,
          taken ++ (take target lead (lead :: ahead) wanted available).1⟩ := by
  fun_induction take target lead (lead :: ahead) wanted available with
  | case1 available empty =>
    intro left remaining taken same
    have leaves : turn? target lead (lead :: ahead) left available = none := by rw [turn?, same, if_pos empty]
    refine .single ?_
    simp only [step?, leaves, List.foldl_nil, List.append_nil]
  | case2 available nonempty found groupless =>
    intro left remaining taken same
    have leaves : turn? target lead (lead :: ahead) left available = none := by
      rw [turn?, same, if_neg nonempty]
      exact if_pos groupless
    refine .single ?_
    simp only [step?, leaves, List.foldl_nil, List.append_nil]
  | case3 available nonempty found group rest ih =>
    intro left remaining taken same
    have takes : turn? target lead (lead :: ahead) left available = some ⟨lead, found.2, found.1⟩ := by
      rw [turn?, same, if_neg nonempty]
      exact if_neg group
    have narrower : (left.inter (available.diff found.2)).inter (available.diff found.2) =
        wanted.inter (available.diff found.2) := by
      refine Zoom.ext_contains fun level _ => ?_
      have here : (left.contains level && available.contains level) = (wanted.contains level && available.contains level) := by
        rw [← Zoom.contains_inter, same, Zoom.contains_inter]
      simp only [Zoom.contains_inter, Zoom.contains_diff]
      rw [← Bool.and_assoc (wanted.contains level), ← here]
      cases left.contains level <;> cases available.contains level <;> simp
    have others := ih _ (remaining.diff found.2) (taken ++ [⟨lead, found.2, found.1⟩]) narrower
    rw [List.append_assoc] at others
    refine others.head ?_
    simp only [step?, takes]

theorem runs_cut (remaining available : Zoom) (declarations : List Declaration) (taken : List Slice) : ∃ last : Cutting,
    Runs target ⟨remaining, available, none, declarations, taken⟩ last ∧ last.step? target = none ∧
      last.taken = taken ++ cut target remaining available declarations := by
  fun_induction cut target remaining available declarations generalizing taken with
  | case1 remaining available => exact ⟨_, .refl, rfl, by simp⟩
  | case2 remaining available lead rest passed ih =>
    obtain ⟨last, runs, ends, all⟩ := ih taken
    refine ⟨last, runs.head ?_, ends, all⟩
    simp only [step?, passed, if_true]
  | case3 remaining available lead rest passed taking ih =>
    obtain ⟨last, runs, ends, all⟩ := ih (taken ++ taking.1)
    have loop : Runs target _ _ := @runs_take target lead rest lead.zoom available lead.zoom remaining taken rfl
    refine ⟨last, (loop.trans runs).head ?_, ends, by rw [all, List.append_assoc]⟩
    simp only [step?, passed]
    rfl

theorem loop_ends (on : cutting.loop.isSome) : ∃ after, Runs target cutting after ∧ after.loop = none ∧
    after.ahead = cutting.ahead ∧ after.taken.length ≤ cutting.taken.length + cutting.available.count := by
  obtain ⟨remaining, available, loop, ahead, taken⟩ := cutting
  obtain ⟨⟨lead, wanted⟩, rfl⟩ := Option.isSome_iff_exists.mp on
  have runs := @runs_take target lead ahead wanted available wanted remaining taken rfl
  exact ⟨_, runs, rfl, rfl, Nat.le_trans (Nat.le_add_right _ _) (runs_few runs)⟩

/-- What holds of the loops of a definition: each turn takes a level away or leaves the loop, for want of levels; at most
one slice is taken for each level; and the loops end, with the slices of the definition. -/
structure Ends (target : String → Option Target) (remaining : Zoom) (declarations : List Declaration) : Prop where
  turns : ∀ cutting, Runs target (start remaining declarations) cutting → ∀ lead wanted,
    cutting.loop = some (lead, wanted) → Progress target lead (lead :: cutting.ahead) wanted cutting.available
  few : ∀ cutting, Runs target (start remaining declarations) cutting → cutting.taken.length ≤ 23
  loops : ∀ cutting, Runs target (start remaining declarations) cutting → cutting.loop.isSome →
    ∃ after, Runs target cutting after ∧ after.loop = none ∧ after.ahead = cutting.ahead ∧
      after.taken.length ≤ cutting.taken.length + cutting.available.count
  last : ∃ last, Runs target (start remaining declarations) last ∧ last.step? target = none ∧
    last.taken = cut target remaining Zoom.all declarations ∧ last.taken.length ≤ 23

theorem ends_of_known (remaining : Zoom) (known : ∀ declaration ∈ declarations, (target declaration.property).isSome) :
    Ends target remaining declarations := by
  have few : ∀ cutting, Runs target (start remaining declarations) cutting → cutting.taken.length ≤ 23 := by
    intro cutting runs
    have all : Zoom.all.count = 23 := by decide
    have fewer : cutting.taken.length + cutting.available.count ≤ 0 + Zoom.all.count := runs_few runs
    omega
  have begun : (start remaining declarations).Sound target := ⟨known, by simp [start]⟩
  constructor
  · intro cutting runs lead wanted on
    obtain ⟨owned, inside⟩ := (runs_sound begun runs).loop lead wanted on
    exact progress owned inside _ _
  · exact few
  · exact fun cutting _ on => loop_ends on
  · obtain ⟨last, runs, ends, taken⟩ := @runs_cut target remaining Zoom.all declarations []
    exact ⟨last, runs, ends, taken, few last runs⟩

/-- Cutting ends for every definition; only one that has a property that is not known is refused before any loop. -/
theorem ofDefinition_ends (context : Context) (definition : Definition) (existing : Remaining) :
    (∃ unknown ∈ definition.declarations, context.renderer.target? unknown.property = none ∧
      Rule.ofDefinition context definition existing =
        pure ⟨[], existing, some (.unknownProperty unknown.property unknown.place)⟩) ∨
    Ends context.renderer.target? (existing.get definition.filters.text) definition.declarations := by
  cases found : definition.declarations.find? fun declaration => (context.renderer.target? declaration.property).isNone with
  | some unknown =>
    left
    refine ⟨unknown, List.mem_of_find?_eq_some found, by simpa using List.find?_some found, ?_⟩
    simp only [Rule.ofDefinition, found]
  | none =>
    right
    refine ends_of_known _ fun declaration isDeclaration => ?_
    simpa [Option.isSome_iff_ne_none] using List.find?_eq_none.mp found declaration isDeclaration

def between (property : String) (index first last : Nat) : Declaration :=
  ⟨property, defaultInstance, ⟨index, .keyword property, ⟨"roads.mss", index⟩⟩, index, ⟨"roads.mss", index⟩,
    Zoom.range first last⟩

def overlapping : Definition where
  elements := []
  filters := FilterSet.empty
  zoom := Zoom.all
  attachment := defaultAttachment
  specificity := ⟨1, 0, 0, 0⟩
  place := ⟨"roads.mss", 0⟩
  declarations := [between "line-width" 0 5 22, between "line-color" 1 10 22, between "line-cap" 2 0 12]

theorem ofDefinition_ends_overlapping : ∃ last : Cutting, last.step? Mapnik.renderer.target? = none ∧
    last.taken.map Slice.levels = [Zoom.range 10 12, Zoom.range 13 22, Zoom.range 5 9, Zoom.range 0 4] ∧
    last.taken.length ≤ 23 ∧
    Progress Mapnik.renderer.target? (between "line-width" 0 5 22) overlapping.declarations (Zoom.range 5 22) Zoom.all := by
  have known : ∀ declaration ∈ overlapping.declarations, (Mapnik.renderer.target? declaration.property).isSome := by
    decide +kernel
  have slices : (cut Mapnik.renderer.target? Zoom.all Zoom.all overlapping.declarations).map Slice.levels =
      [Zoom.range 10 12, Zoom.range 13 22, Zoom.range 5 9, Zoom.range 0 4] := by decide +kernel
  rcases ofDefinition_ends ⟨Scope.empty, Mapnik.renderer, true⟩ overlapping Remaining.empty with
    ⟨unknown, inside, isUnknown, -⟩ | ends
  · have := known unknown inside
    simp_all
  · have seen : ¬ (Mapnik.renderer.target? "line-width" = some .style || !Zoom.all.intersects (Zoom.range 5 22)) := by
      decide +kernel
    have begins : (start Zoom.all overlapping.declarations).step? Mapnik.renderer.target? =
        some ⟨Zoom.all, Zoom.all, some (between "line-width" 0 5 22, Zoom.range 5 22),
          [between "line-color" 1 10 22, between "line-cap" 2 0 12], []⟩ := by
      simp only [start, step?, overlapping]
      exact if_neg seen
    obtain ⟨last, runs, ended, taken, few⟩ := ends.last
    exact ⟨last, ended, taken ▸ slices, few, ends.turns _ (.single begins) _ _ rfl⟩

end Cutting
end Slice
end MapStyle
