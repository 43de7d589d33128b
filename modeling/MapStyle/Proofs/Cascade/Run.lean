import MapStyle.Cascade.Style
import MapStyle.Proofs.Cascade.Turn
import MapStyle.Proofs.Filter.Reevaluation
/-!
The run of inheritance: passes over the definitions that come later, and placing the members of a pass.
-/
namespace MapStyle

theorem Inheritance.pass_induction (keeps : Inheritance.Work → List Nat → Prop) {later : List Definition}
    (turn : ∀ incoming ∈ later, ∀ work members, keeps work members →
      keeps (Inheritance.visitAll incoming work members).1 (Inheritance.visitAll incoming work members).2)
    {work : Inheritance.Work} {members : List Nat} (start : keeps work members) :
    keeps (Inheritance.pass work members later).1 (Inheritance.pass work members later).2 := by
  induction later generalizing work members with
  | nil => exact start
  | cons incoming rest ih =>
    exact ih (fun other inRest => turn other (List.mem_cons_of_mem _ inRest)) (turn incoming List.mem_cons_self _ _ start)

namespace Inheritance
variable {values : Set String} {work : Work}

def Work.Placed (work : Work) : Prop :=
  ∀ entry ∈ work.placed, ∃ definition, work.arena[entry.2]? = some definition ∧ definition.attachment = entry.1

theorem place_eq (attachment : String) {member : Nat} {definition : Definition}
    (found : work.arena[member]? = some definition) : work.place attachment member =
      { (work.register attachment definition.filters.text member) with placed := (attachment, member) :: work.placed } := by
  simp only [Work.place, found]

theorem placeAll_eq {attachment : String} {members : List Nat}
    (there : ∀ member ∈ members, ∃ definition, work.arena[member]? = some definition) :
    (members.foldl (fun work member => work.place attachment member) work).arena = work.arena ∧
    (members.foldl (fun work member => work.place attachment member) work).placed =
      (members.map fun member => (attachment, member)).reverse ++ work.placed := by
  induction members generalizing work with
  | nil => exact ⟨rfl, rfl⟩
  | cons member rest ih =>
    obtain ⟨⟨definition, found⟩, thereRest⟩ := List.forall_mem_cons.mp there
    have same := place_eq attachment found
    obtain ⟨sameArena, placed⟩ := @ih (work.place attachment member) fun other inRest => by
      rw [same]
      exact thereRest other inRest
    constructor
    · exact sameArena.trans (by rw [same]; rfl)
    · rw [List.foldl_cons, placed, same]
      simp

theorem placeAll_spec (sound : Sound values work) {attachment : String} {members : List Nat}
    (standing : Standing work attachment members) :
    Sound values (members.foldl (fun work member => work.place attachment member) work) ∧
    (members.foldl (fun work member => work.place attachment member) work).arena = work.arena ∧
    (members.foldl (fun work member => work.place attachment member) work).placed =
      (members.map fun member => (attachment, member)).reverse ++ work.placed := by
  constructor
  · induction members generalizing work with
    | nil => exact sound
    | cons member rest ih =>
      obtain ⟨definition, found, rfl⟩ := standing member List.mem_cons_self
      have registered := sound.register found
      have same := place_eq definition.attachment found
      rw [List.foldl_cons, same]
      exact ih ⟨registered.compares, registered.index⟩ fun other inRest => standing other (List.mem_cons_of_mem _ inRest)
  · exact placeAll_eq fun member isMember => (standing member isMember).imp fun _ => And.left

def followers (definition : Definition) (later : List Definition) : List Definition :=
  later.filter fun other => other.attachment == definition.attachment

theorem mem_followers {definition other : Definition} {later : List Definition} :
    other ∈ followers definition later ↔ other ∈ later ∧ other.attachment = definition.attachment := by
  simp [followers]

def passed (work : Work) (definition : Definition) (later : List Definition) : Work × List Nat :=
  pass (work.push definition) [work.arena.size] (followers definition later)

theorem step_eq (work : Work) (definition : Definition) (later : List Definition) :
    step work definition later = (passed work definition later).2.foldl
      (fun work member => work.place definition.attachment member) (passed work definition later).1 := rfl

theorem sound_push (sound : Sound values work) {definition : Definition} (compares : definition.filters.Compares values) :
    Sound values (work.push definition) where
  compares := by
    intro member other found
    rcases arena_push_cases found with ⟨-, rfl⟩ | foundOld
    · exact compares
    · exact sound.compares foundOld
  index := by
    intro attachment filters member known
    obtain ⟨old, foundOld, agrees⟩ := sound.index known
    exact ⟨old, arena_push_old foundOld, agrees⟩

theorem members_push (definition : Definition) : Members definition (work.push definition) [work.arena.size] := by
  intro member isMember
  rw [List.mem_singleton.mp isMember]
  exact ⟨definition, by rw [Work.arena_push, Array.getElem?_push_size], Belongs.refl definition⟩

/-- The filters of an original compare with numbers, and they are coherent. -/
structure Plain (values : Set String) (definition : Definition) : Prop where
  compares : definition.filters.Compares values
  coherent : definition.filters.Coherent

variable (one : OneText values)
include one

/-- A pass leaves the arena sound, its members among those that belong to `definition`, and the styles as they are. -/
theorem passed_members (sound : Sound values work) {definition : Definition} (own : definition.filters.Compares values)
    {later : List Definition} (plain : ∀ other ∈ later, Plain values other) :
    Sound values (passed work definition later).1 ∧
      Members definition (passed work definition later).1 (passed work definition later).2 ∧
      (passed work definition later).1.placed = work.placed := by
  refine pass_induction (fun after members =>
    Sound values after ∧ Members definition after members ∧ after.placed = work.placed) ?_
    ⟨sound_push sound own, members_push definition, rfl⟩
  rintro incoming follows after members ⟨sound, belong, placed⟩
  obtain ⟨isLater, sameAttachment⟩ := mem_followers.mp follows
  have incomingPlain := plain incoming isLater
  have effect := visitAll_effect one incomingPlain.compares incomingPlain.coherent sound (sameAttachment ▸ belong.standing)
  exact ⟨effect.sound, visitAll_members one incomingPlain.compares incomingPlain.coherent sound belong sameAttachment,
    effect.placed.trans placed⟩

/-- The members that make up the style of an attachment. -/
def Work.placedFor (work : Work) (attachment : String) : List Nat :=
  (work.placed.reverse.filter fun entry => entry.1 == attachment).map Prod.snd

omit one in
theorem placedFor_append {before after : Work} {attachment own : String} {members : List Nat}
    (placed : after.placed = (members.map fun member => (own, member)).reverse ++ before.placed) :
    after.placedFor attachment = before.placedFor attachment ++ if own = attachment then members else [] := by
  have entries : (members.map fun member => (own, member)).filter (fun entry => entry.1 == attachment) =
      if own = attachment then members.map fun member => (own, member) else [] := by
    split
    · next same => simp [same]
    · next differs => simp [differs]
  simp only [Work.placedFor, placed, List.reverse_append, List.reverse_reverse, List.filter_append, List.map_append, entries]
  split <;> simp

theorem step_placed (sound : Sound values work) {definition : Definition} (own : definition.filters.Compares values)
    {later : List Definition} (plain : ∀ other ∈ later, Plain values other) :
    Sound values (step work definition later) ∧ (step work definition later).arena = (passed work definition later).1.arena ∧
      ∀ attachment, (step work definition later).placedFor attachment = work.placedFor attachment ++
        if definition.attachment = attachment then (passed work definition later).2 else [] := by
  obtain ⟨passedSound, belong, placed⟩ := passed_members one sound own plain
  obtain ⟨placedSound, sameArena, placedAll⟩ := placeAll_spec passedSound belong.standing
  rw [step_eq]
  refine ⟨placedSound, sameArena, fun attachment => ?_⟩
  rw [placedFor_append (placedAll.trans (congrArg _ placed))]

section kept
variable (keeps : Definition → Prop) {definition : Definition} {later : List Definition}
  (taking : ∀ incoming ∈ later, ∀ definition, keeps definition → definition.attachment = incoming.attachment →
    (∀ feature, definition.filters.accepts feature → definition.filters.merge incoming.filters = .unchanged) →
    keeps (definition.addDeclarations incoming.declarations))
  (plain : ∀ other ∈ later, Plain values other)
include taking plain

theorem step_kept (sound : Sound values work) (own : definition.filters.Compares values) {member : Nat}
    {before : Definition} (found : work.arena[member]? = some before) (holds : keeps before) :
    ∃ after, (step work definition later).arena[member]? = some after ∧ keeps after := by
  rw [(step_placed one sound own plain).2.1]
  -- along the pass the member is still there and has the property
  refine (pass_induction (fun after members => Sound values after ∧ Members definition after members ∧
    ∃ later, after.arena[member]? = some later ∧ keeps later) ?_
    ⟨sound_push sound own, members_push definition, before, arena_push_old found, holds⟩).2.2
  · rintro incoming follows after members ⟨sound, belong, there, foundThere, holdsThere⟩
    obtain ⟨isLater, sameAttachment⟩ := mem_followers.mp follows
    have incomingPlain := plain incoming isLater
    have effect := visitAll_effect one incomingPlain.compares incomingPlain.coherent sound
      (sameAttachment ▸ belong.standing)
    refine ⟨effect.sound,
      visitAll_members one incomingPlain.compares incomingPlain.coherent sound belong sameAttachment, ?_⟩
    obtain ⟨kept, foundKept, touched⟩ := effect.kept foundThere
    refine ⟨kept, foundKept, ?_⟩
    rcases touched with rfl | ⟨rfl, attachment, seen⟩
    · exact holdsThere
    · exact taking incoming isLater there holdsThere attachment fun feature accepts => (seen feature accepts).2

theorem resolveFrom_kept (sound : Sound values work) {member : Nat} {before : Definition}
    (found : work.arena[member]? = some before) (holds : keeps before) :
    ∃ after, (resolveFrom work later).arena[member]? = some after ∧ keeps after := by
  induction later generalizing work before with
  | nil => exact ⟨before, found, holds⟩
  | cons definition rest ih =>
    have takingRest := fun incoming (isLater : incoming ∈ rest) => taking incoming (List.mem_cons_of_mem _ isLater)
    have plainRest := fun other (isLater : other ∈ rest) => plain other (List.mem_cons_of_mem _ isLater)
    have own := (plain definition List.mem_cons_self).compares
    obtain ⟨after, foundAfter, holdsAfter⟩ := step_kept one keeps takingRest plainRest sound own found holds
    exact ih takingRest plainRest (step_placed one sound own plainRest).1 foundAfter holdsAfter

end kept

end Inheritance
end MapStyle
