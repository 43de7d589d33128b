import MapStyle.Proofs.Cascade.Origin
import MapStyle.Proofs.Cascade.Stages
/-!
What holds throughout inheritance. Members are only known by positions that are taken; what stands at a position is only ever
extended at its end, by declarations with new ids; and every pass places one run of members, of which the last has
the filters of the definition that the pass is for.
-/
namespace MapStyle

namespace Definition

/-- `after` is `before` with declarations appended, none of which has an id that was there before it. -/
def Extended (before after : Definition) : Prop :=
  ∃ new, after = { before with declarations := before.declarations ++ new } ∧
    (∀ next ∈ new, next.id ∉ before.declarations.map Declaration.id) ∧ (new.map Declaration.id).Nodup

theorem Extended.refl (definition : Definition) : Extended definition definition := ⟨[], by simp⟩

theorem Extended.trans {first second third : Definition} (before : Extended first second) (after : Extended second third) :
    Extended first third := by
  obtain ⟨new, rfl, apart, distinct⟩ := before
  obtain ⟨more, rfl, apartMore, distinctMore⟩ := after
  simp only [List.map_append, List.mem_append, not_or] at apartMore
  refine ⟨new ++ more, by simp, List.forall_mem_append.mpr ⟨apart, fun next inMore => (apartMore next inMore).1⟩, ?_⟩
  rw [List.map_append]
  refine List.nodup_append.mpr ⟨distinct, distinctMore, ?_⟩
  rintro id inNew _ inMore rfl
  obtain ⟨next, isMore, rfl⟩ := List.mem_map.mp inMore
  exact (apartMore next isMore).2 inNew

theorem Extended.add (definition : Definition) (declaration : Declaration) :
    Extended definition (definition.addDeclaration declaration) := by
  unfold addDeclaration
  split
  · exact Extended.refl definition
  · rename_i unknown
    exact ⟨[declaration], rfl, by simpa [declares_iff] using unknown, by simp⟩

theorem Extended.addAll (definition : Definition) (declarations : List Declaration) :
    Extended definition (definition.addDeclarations declarations) := by
  induction declarations generalizing definition with
  | nil => exact Extended.refl definition
  | cons next rest ih => exact (Extended.add definition next).trans (ih _)

theorem Extended.filters {before after : Definition} (extended : Extended before after) : after.filters = before.filters := by
  obtain ⟨new, rfl, -⟩ := extended
  rfl

end Definition

namespace Inheritance
open Definition

variable {originals : List Definition} {work : Work} {own : Definition}

theorem starts_of_extended {before after : Definition} (extended : Extended before after) : Starts before after := by
  obtain ⟨new, rfl, -⟩ := extended
  exact ⟨rfl, List.prefix_append _ _⟩

/-- What a step does to the arena: members are extended, and a new one is an original, or a copy of a member, perhaps with other
filters, that is extended. -/
structure Moves (originals : List Definition) (before after : Work) : Prop where
  kept : ∀ (member : Nat) (definition : Definition), before.arena[member]? = some definition →
    ∃ later, after.arena[member]? = some later ∧ Extended definition later
  fresh : ∀ (member : Nat) (definition : Definition), after.arena[member]? = some definition →
    before.arena[member]? = none → definition ∈ originals ∨
      ∃ parent ∈ before.arena, ∃ filters, Extended { parent with filters } definition

theorem Moves.refl (originals : List Definition) (work : Work) : Moves originals work work where
  kept _ definition found := ⟨definition, found, .refl definition⟩
  fresh _ _ found missing := by simp [missing] at found

theorem Moves.of_arena {before after other : Work} (moves : Moves originals before after) (same : other.arena = after.arena) :
    Moves originals before other where
  kept := by
    rw [same]
    exact moves.kept
  fresh := by
    rw [same]
    exact moves.fresh

theorem moves_extend (originals : List Definition) (work : Work) (member : Nat) (declarations : List Declaration) :
    Moves originals work (work.extend member declarations) where
  kept other definition found := by
    refine ⟨_, by rw [Work.arena_extend, found]; rfl, ?_⟩
    split
    · exact Extended.addAll definition declarations
    · exact Extended.refl definition
  fresh other definition found missing := by simp [Work.arena_extend, missing] at found

theorem moves_push {copy : Definition}
    (descends : copy ∈ originals ∨ ∃ parent ∈ work.arena, ∃ filters, Extended { parent with filters } copy) :
    Moves originals work (work.push copy) where
  kept _ definition found := ⟨definition, arena_push_old found, .refl definition⟩
  fresh other definition found missing := by
    rcases arena_push_cases found with ⟨-, rfl⟩ | foundOld
    · exact descends
    · simp [missing] at foundOld

theorem visit_moves (originals : List Definition) (incoming : Definition) (work : Work) (member : Nat) :
    Moves originals work (visit incoming work member).1 := by
  cases found : work.arena[member]? with
  | none => simpa only [visit, found] using Moves.refl originals work
  | some definition =>
    have inside : definition ∈ work.arena := Array.mem_of_getElem? found
    have cases := visit_visited incoming found
    generalize visit incoming work member = outcome at cases
    cases cases with
    | apart => exact .refl originals work
    | idle => exact .refl originals work
    | known filters outcome other known => exact moves_extend originals work other _
    | extended => exact moves_extend originals work member _
    | split filters outcome unknown adds =>
      have pushed : Moves originals work (work.push ({ definition with filters }.addDeclarations incoming.declarations)) :=
        moves_push (Or.inr ⟨definition, inside, filters, Extended.addAll _ _⟩)
      exact pushed.of_arena rfl
    | copied => exact moves_push (Or.inr ⟨definition, inside, definition.filters, Extended.addAll _ _⟩)

/-- The members of a pass for `own`: all start with what it declares, and the last has its filters. -/
structure Holds (own : Definition) (work : Work) (members : List Nat) : Prop where
  starts : ∀ member ∈ members, Present own work member
  ends : ∃ front last definition, members = front ++ [last] ∧ work.arena[last]? = some definition ∧
    definition.filters = own.filters

theorem Moves.grows {before after : Work} (moves : Moves originals before after) : Grows before after := by
  intro member definition found
  obtain ⟨later, foundLater, extended⟩ := moves.kept member definition found
  exact ⟨later, foundLater, starts_of_extended extended⟩

theorem Holds.moves {before after : Work} {members : List Nat} (holds : Holds own before members)
    (moves : Moves originals before after) : Holds own after members where
  starts member isMember := moves.grows.present (holds.starts member isMember)
  ends := by
    obtain ⟨front, last, definition, split, found, filters⟩ := holds.ends
    obtain ⟨later, foundLater, extended⟩ := moves.kept last definition found
    exact ⟨front, last, later, split, foundLater, extended.filters.trans filters⟩

theorem visit_ends {incoming : Definition} {member : Nat} {definition : Definition}
    (found : work.arena[member]? = some definition) : ∃ front last later, (visit incoming work member).2 = front ++ [last] ∧
      (visit incoming work member).1.arena[last]? = some later ∧ later.filters = definition.filters := by
  have itself : ∃ later, (visit incoming work member).1.arena[member]? = some later ∧ later.filters = definition.filters := by
    obtain ⟨later, foundLater, extended⟩ := (visit_moves [] incoming work member).kept member definition found
    exact ⟨later, foundLater, extended.filters⟩
  have cases := visit_visited incoming found
  generalize visit incoming work member = outcome at cases itself
  obtain ⟨later, foundLater, filters⟩ := itself
  cases cases with
  | apart => exact ⟨[], member, later, rfl, foundLater, filters⟩
  | idle => exact ⟨[], member, later, rfl, foundLater, filters⟩
  | known => exact ⟨[], member, later, rfl, foundLater, filters⟩
  | extended => exact ⟨[], member, later, rfl, foundLater, filters⟩
  | split => exact ⟨[work.arena.size], member, later, rfl, foundLater, filters⟩
  | copied => exact ⟨[], work.arena.size, _, rfl, Array.getElem?_push_size, Definition.addDeclarations_filters _ _⟩

theorem Holds.visit {visited ahead : List Nat} {member : Nat} (holds : Holds own work (visited ++ member :: ahead))
    (incoming : Definition) : Holds own (Inheritance.visit incoming work member).1
      (visited ++ (Inheritance.visit incoming work member).2 ++ ahead) := by
  have moved := holds.moves (visit_moves [] incoming work member)
  obtain ⟨-, -, answers⟩ := @visit_grows work incoming own member (holds.starts member (by simp))
  constructor
  · intro other isMember
    simp only [List.mem_append] at isMember
    rcases isMember with (inVisited | answered) | isAhead
    · exact moved.starts other (by simp [inVisited])
    · exact answers other answered
    · exact moved.starts other (by simp [isAhead])
  · cases ahead using List.reverseRecOn with
    | nil =>
      -- the last member is the visited one, which its answer ends with
      obtain ⟨front, last, definition, same, found, filters⟩ := holds.ends
      obtain ⟨-, single⟩ := List.append_inj' same rfl
      obtain rfl := List.head_eq_of_cons_eq single
      obtain ⟨before, final, later, answer, foundFinal, filtersFinal⟩ := @visit_ends work incoming member definition found
      exact ⟨visited ++ before, final, later, by simp [answer], foundFinal, filtersFinal.trans filters⟩
    | append_singleton ahead final =>
      obtain ⟨front, last, definition, same, found, filters⟩ := moved.ends
      have regrouped : (visited ++ member :: ahead) ++ [final] = front ++ [last] := by simpa using same
      obtain ⟨-, single⟩ := List.append_inj' regrouped rfl
      obtain rfl := List.head_eq_of_cons_eq single
      exact ⟨visited ++ (Inheritance.visit incoming work member).2 ++ ahead, final, definition, by simp, found, filters⟩

/-- What `passes` put in the style of an attachment. -/
def runsFor (attachment : String) (passes : List (Definition × List Nat)) : List Nat :=
  (passes.filter fun entry => entry.1.attachment == attachment).flatMap Prod.snd

theorem runsFor_append (attachment : String) (passes more : List (Definition × List Nat)) :
    runsFor attachment (passes ++ more) = runsFor attachment passes ++ runsFor attachment more := by
  simp [runsFor]

theorem runsFor_single (attachment : String) (own : Definition) (members : List Nat) :
    runsFor attachment [(own, members)] = if own.attachment = attachment then members else [] := by
  by_cases same : own.attachment = attachment <;> simp [runsFor, same]

namespace Stage

def own? (stage : Stage) : Option Definition :=
  match stage.phase with
  | .next => none
  | .pass own _ _ _ => some own
  | .placing own _ => some own

/-- The passes so far: those that have `ended`, each with the run of members that it placed, and the one that is on, which has
placed the members in `placed`. -/
structure Passes (originals : List Definition) (ended : List (Definition × List Nat)) (placed : List Nat) (stage : Stage) :
    Prop where
  originals : originals = ended.map Prod.fst ++ (stage.own?.toList ++ stage.later)
  styles : ∀ attachment, stage.ledger.work.placedFor attachment =
    runsFor attachment (ended ++ (stage.own?.map (·, placed)).toList)
  ended : ∀ entry ∈ ended, Holds entry.1 stage.ledger.work entry.2
  on : ∀ own, stage.own? = some own → Holds own stage.ledger.work (placed ++ stage.members)

/-- What holds at every stage. -/
structure Disciplined (originals : List Definition) (stage : Stage) : Prop where
  filed : stage.ledger.Filed
  range : InRange stage.ledger.work
  passes : ∃ ended placed, Passes originals ended placed stage

variable {originals : List Definition} {stage after : Stage}

theorem start_disciplined (originals : List Definition) : (start originals).Disciplined originals := by
  have work : (start originals).ledger.work = Work.empty := Ledger.work_empty
  refine ⟨Ledger.empty_filed, ?_, [], [], ?_⟩
  · rw [work]
    constructor <;> simp [Work.empty]
  · constructor
    · simp [start, own?]
    · intro attachment
      rw [work]
      simp [start, own?, Work.placedFor, Work.empty, runsFor]
    · simp
    · simp [start, own?]

theorem Disciplined.members (disciplined : stage.Disciplined originals) :
    ∀ member ∈ stage.members, member < stage.ledger.arena.size := by
  obtain ⟨ended, placed, passes⟩ := disciplined.passes
  intro member isMember
  cases isOn : stage.own? with
  | none =>
    obtain ⟨ledger, phase, later⟩ := stage
    cases phase <;> simp_all [own?, Stage.members]
  | some own =>
    obtain ⟨definition, found, -⟩ := (passes.on own isOn).starts member (List.mem_append_right _ isMember)
    rw [Ledger.arena_work] at found
    obtain ⟨entry, foundEntry, -⟩ := Option.map_eq_some_iff.mp found
    exact (Array.getElem?_eq_some_iff.mp foundEntry).1

section steps
variable {ledger : Ledger} {own : Definition} {followers later : List Definition} {visited ahead members : List Nat}
  {member : Nat}

theorem begin_disciplined (disciplined : Disciplined originals ⟨ledger, .next, own :: later⟩) (followers : List Definition) :
    Disciplined originals
        ⟨ledger.push (Entry.ofDefinition own), .pass own followers [] [ledger.arena.size], later⟩ ∧
      Moves originals ledger.work (ledger.push (Entry.ofDefinition own)).work := by
  obtain ⟨filed, range, ended, placed, passes⟩ := disciplined
  have same : (ledger.push (Entry.ofDefinition own)).work = ledger.work.push own := Ledger.work_push ledger _
  have moves : Moves originals ledger.work (ledger.work.push own) :=
    moves_push (Or.inl (by rw [passes.originals]; simp [own?]))
  have found : (ledger.work.push own).arena[ledger.arena.size]? = some own := by
    rw [← Ledger.size_work]
    exact Array.getElem?_push_size
  refine ⟨⟨filed.push (Entry.ofDefinition_filed own), same ▸ range.push own, ended, [], ?_⟩, same ▸ moves⟩
  constructor
  · simpa [own?] using passes.originals
  · intro attachment
    have before : ledger.work.placedFor attachment = runsFor attachment ended := by
      simpa [own?] using passes.styles attachment
    exact before.trans (by simp [own?, runsFor_append, runsFor_single])
  · intro entry hasEnded
    rw [same]
    exact (passes.ended entry hasEnded).moves moves
  · rintro _ ⟨⟩
    rw [same]
    exact ⟨List.forall_mem_singleton.mpr ⟨own, found, .refl own⟩, [], ledger.arena.size, own, rfl, found, rfl⟩

theorem visit_disciplined
    (disciplined : Disciplined originals ⟨ledger, .pass own followers visited (member :: ahead), later⟩)
    (incoming : Definition) :
    Disciplined originals ⟨(ledger.visit incoming member).1,
        .pass own followers (visited ++ (ledger.visit incoming member).2) ahead, later⟩ ∧
      Moves originals ledger.work (ledger.visit incoming member).1.work := by
  obtain ⟨filed, range, ended, placed, passes⟩ := disciplined
  obtain ⟨filedAfter, outcome⟩ := filed.visit incoming member
  have same : (ledger.visit incoming member).1.work = (Inheritance.visit incoming ledger.work member).1 :=
    congrArg Prod.fst outcome
  have answer : (ledger.visit incoming member).2 = (Inheritance.visit incoming ledger.work member).2 :=
    congrArg Prod.snd outcome
  have moves := visit_moves originals incoming ledger.work member
  refine ⟨⟨filedAfter, same ▸ range.visit incoming member, ended, placed, ?_⟩, same ▸ moves⟩
  constructor
  · exact passes.originals
  · intro attachment
    have unplaced : (ledger.visit incoming member).1.work.placedFor attachment = ledger.work.placedFor attachment := by
      simp only [same, Work.placedFor, visit_placed]
    exact unplaced.trans (passes.styles attachment)
  · intro entry hasEnded
    rw [same]
    exact (passes.ended entry hasEnded).moves moves
  · rintro _ ⟨⟩
    have holds : Holds own ledger.work ((placed ++ visited) ++ member :: ahead) := by
      simpa [Stage.members] using passes.on own rfl
    simpa [Stage.members, same, answer] using holds.visit incoming

theorem Disciplined.rephase (disciplined : stage.Disciplined originals) {phase : Phase}
    (sameOwn : ({ stage with phase } : Stage).own? = stage.own?)
    (sameMembers : ({ stage with phase } : Stage).members = stage.members) :
    ({ stage with phase } : Stage).Disciplined originals := by
  obtain ⟨filed, range, ended, placed, passes⟩ := disciplined
  refine ⟨filed, range, ended, placed, ?_⟩
  constructor
  · rw [sameOwn]
    exact passes.originals
  · rw [sameOwn]
    exact passes.styles
  · exact passes.ended
  · rw [sameOwn, sameMembers]
    exact passes.on

theorem place_disciplined (disciplined : Disciplined originals ⟨ledger, .placing own (member :: members), later⟩) :
    Disciplined originals ⟨ledger.place own.attachment member, .placing own members, later⟩ ∧
      Moves originals ledger.work (ledger.place own.attachment member).work := by
  obtain ⟨filed, range, ended, placed, passes⟩ := disciplined
  have holds : Holds own ledger.work (placed ++ member :: members) := passes.on own rfl
  obtain ⟨definition, found, -⟩ := holds.starts member (by simp)
  have same : (ledger.place own.attachment member).work = _ :=
    (Ledger.work_place ledger own.attachment member).trans (place_eq own.attachment found)
  have sameArena : (ledger.place own.attachment member).work.arena = ledger.work.arena := by rw [same]; rfl
  have moves : Moves originals ledger.work (ledger.place own.attachment member).work :=
    (Moves.refl originals ledger.work).of_arena sameArena
  refine ⟨⟨filed.place own.attachment member, ?_, ended, placed ++ [member], ?_⟩, moves⟩
  · rw [Ledger.work_place]
    exact range.place own.attachment member
  constructor
  · exact passes.originals
  · intro attachment
    have before := passes.styles attachment
    have more : (ledger.place own.attachment member).work.placed =
        ([member].map fun member => (own.attachment, member)).reverse ++ ledger.work.placed := by rw [same]; rfl
    rw [placedFor_append more, before]
    simp only [own?, Option.map_some, Option.toList_some, runsFor_append, runsFor_single, List.append_assoc]
    split <;> simp
  · exact fun entry hasEnded => (passes.ended entry hasEnded).moves moves
  · rintro _ ⟨⟩
    simpa [Stage.members] using holds.moves moves

theorem end_disciplined (disciplined : Disciplined originals ⟨ledger, .placing own [], later⟩) :
    Disciplined originals ⟨ledger, .next, later⟩ := by
  obtain ⟨filed, range, ended, placed, passes⟩ := disciplined
  refine ⟨filed, range, ended ++ [(own, placed)], [], ?_⟩
  constructor
  · simpa [own?] using passes.originals
  · intro attachment
    simpa [own?] using passes.styles attachment
  · have holds : Holds own ledger.work placed := by simpa [Stage.members] using passes.on own rfl
    exact List.forall_mem_append.mpr ⟨passes.ended, List.forall_mem_singleton.mpr holds⟩
  · rintro _ ⟨⟩

end steps

theorem step_disciplined (disciplined : stage.Disciplined originals) (steps : stage.step? = some after) :
    after.Disciplined originals ∧ Moves originals stage.ledger.work after.ledger.work := by
  obtain ⟨ledger, phase, later⟩ := stage
  cases phase with
  | next =>
    cases later with
    | nil => simp [step?] at steps
    | cons own later =>
      obtain rfl := Option.some.inj steps
      exact begin_disciplined disciplined _
  | pass own rest visited ahead =>
    cases rest with
    | nil =>
      obtain rfl := Option.some.inj steps
      exact ⟨disciplined.rephase rfl rfl, .refl originals _⟩
    | cons incoming rest =>
      cases ahead with
      | nil =>
        obtain rfl := Option.some.inj steps
        exact ⟨disciplined.rephase rfl (by simp [Stage.members]), .refl originals _⟩
      | cons member ahead =>
        obtain rfl := Option.some.inj steps
        exact visit_disciplined disciplined incoming
  | placing own members =>
    cases members with
    | nil =>
      obtain rfl := Option.some.inj steps
      exact ⟨end_disciplined disciplined, .refl originals _⟩
    | cons member rest =>
      obtain rfl := Option.some.inj steps
      exact place_disciplined disciplined

theorem runs_disciplined (disciplined : stage.Disciplined originals) (runs : Runs stage after) :
    after.Disciplined originals ∧
      ∀ (member : Nat) (definition : Definition), stage.ledger.work.arena[member]? = some definition →
        ∃ later, after.ledger.work.arena[member]? = some later ∧ Extended definition later := by
  induction runs with
  | refl => exact ⟨disciplined, fun member definition found => ⟨definition, found, .refl definition⟩⟩
  | tail _ steps ih =>
    obtain ⟨between, kept⟩ := ih
    obtain ⟨disciplinedAfter, moves⟩ := step_disciplined between steps
    refine ⟨disciplinedAfter, fun member definition found => ?_⟩
    obtain ⟨middle, foundMiddle, extended⟩ := kept member definition found
    obtain ⟨later, foundLater, extendedLater⟩ := moves.kept member middle foundMiddle
    exact ⟨later, foundLater, extended.trans extendedLater⟩

/-- At every stage the discipline holds; from a stage on, members are only extended, and a step adds no others than it may.
The stages end with what inheritance makes of the definitions, where each of them has placed its run of members. -/
theorem resolve_disciplined (originals : List Definition) :
    (∀ stage, Runs (start originals) stage →
      stage.Disciplined originals ∧ (∀ member ∈ stage.members, member < stage.ledger.arena.size) ∧
      (∀ after, stage.step? = some after → Moves originals stage.ledger.work after.ledger.work) ∧
      ∀ after, Runs stage after → ∀ (member : Nat) (definition : Definition),
        stage.ledger.work.arena[member]? = some definition →
          ∃ later, after.ledger.work.arena[member]? = some later ∧ Extended definition later) ∧
    ∃ last, Runs (start originals) last ∧ last.step? = none ∧ last.ledger.work = resolve originals ∧
      ∃ passes : List (Definition × List Nat), passes.map Prod.fst = originals ∧
        (∀ attachment, (resolve originals).placedFor attachment = runsFor attachment passes) ∧
        ∀ entry ∈ passes, Holds entry.1 (resolve originals) entry.2 := by
  have reached {stage : Stage} (runs : Runs (start originals) stage) : stage.Disciplined originals :=
    (runs_disciplined (start_disciplined originals) runs).1
  constructor
  · intro stage runs
    exact ⟨reached runs, (reached runs).members, fun after steps => (step_disciplined (reached runs) steps).2,
      fun after more => (runs_disciplined (reached runs) more).2⟩
  · obtain ⟨last, -, same, runs⟩ := runs_resolveFrom Ledger.empty_filed originals
    obtain ⟨-, -, ended, placed, passes⟩ := reached runs
    have sameWork : last.work = resolve originals := by rw [same, Ledger.work_empty, resolve]
    have endedAll : ended.map Prod.fst = originals := by simpa [own?] using passes.originals.symm
    refine ⟨⟨last, .next, []⟩, runs, rfl, sameWork, ended, endedAll, fun attachment => ?_, ?_⟩
    · rw [← sameWork, passes.styles attachment]
      simp [own?]
    · exact sameWork ▸ passes.ended

theorem resolve_disciplined_crossing : ∃ last : Stage, last.Disciplined Style.crossing ∧
    last.ledger.work.placedFor defaultAttachment = [3, 5, 1, 6, 7, 0, 8, 9, 10, 11] ∧
    ∃ passes : List (Definition × List Nat), passes.map Prod.fst = Style.crossing ∧
      runsFor defaultAttachment passes = [3, 5, 1, 6, 7, 0, 8, 9, 10, 11] := by
  obtain ⟨throughout, last, runs, -, same, passes, endedAll, styles, -⟩ := resolve_disciplined Style.crossing
  have placed : (resolve Style.crossing).placedFor defaultAttachment = [3, 5, 1, 6, 7, 0, 8, 9, 10, 11] := by decide +kernel
  exact ⟨last, (throughout last runs).1, same ▸ placed, passes, endedAll, (styles defaultAttachment).symm.trans placed⟩

end Stage

end Inheritance
end MapStyle
