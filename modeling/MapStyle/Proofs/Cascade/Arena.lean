import MapStyle.Cascade.Inheritance
import MapStyle.Proofs.Cascade.Declarations
import MapStyle.Proofs.Filter.Absorption
/-!
One visit of inheritance. A visit extends members that see only features of the incoming definition, and adds at most
one member, which sees features of both; everything else in the arena stays as it was.
-/
namespace MapStyle.Inheritance

namespace Work

variable {work : Work} {member other : Nat} {definition : Definition} {declarations : List Declaration}

@[simp] theorem arena_push : (work.push definition).arena = work.arena.push definition := rfl

@[simp] theorem arena_register {attachment filters : String} : (work.register attachment filters member).arena = work.arena := rfl

theorem find?_register {attachment filters : String} {a f : String} :
    (work.register attachment filters member).find? a f =
      if a = attachment ∧ f = filters then some member else work.find? a f := by
  by_cases same : a = attachment ∧ f = filters
  · simp [find?, register, same.1, same.2]
  · have differs : ((a, f) == (attachment, filters)) = false := by simpa using same
    simp [find?, register, List.lookup_cons, same, differs]

theorem arena_extend : (work.extend member declarations).arena[other]? =
    (work.arena[other]?).map fun definition =>
      if member = other then definition.addDeclarations declarations else definition := by
  simp only [extend, Array.getElem?_modify]
  split <;> simp

end Work

/-- The outcomes of a visit, with what decides between them. -/
inductive Visited (incoming : Definition) (work : Work) (member : Nat) (definition : Definition) : Work × List Nat → Prop where
  | apart (outcome : definition.filters.merge incoming.filters = .conflict) :
      Visited incoming work member definition (work, [member])
  | known (filters : FilterSet) (outcome : definition.filters.merge incoming.filters = .merged filters) (other : Nat)
      (found : work.find? incoming.attachment filters.text = some other) :
      Visited incoming work member definition (work.extend other incoming.declarations, [member])
  | split (filters : FilterSet) (outcome : definition.filters.merge incoming.filters = .merged filters)
      (unknown : work.find? incoming.attachment filters.text = none)
      (adds : ∃ next ∈ incoming.declarations, next.id ∉ definition.declarations.map Declaration.id) :
      Visited incoming work member definition
        ((work.push ({ definition with filters }.addDeclarations incoming.declarations)).register incoming.attachment
          filters.text work.arena.size, [work.arena.size, member])
  | idle (filters : FilterSet) (outcome : definition.filters.merge incoming.filters = .merged filters)
      (unknown : work.find? incoming.attachment filters.text = none)
      (present : ∀ next ∈ incoming.declarations, next.id ∈ definition.declarations.map Declaration.id) :
      Visited incoming work member definition (work, [member])
  | copied (outcome : definition.filters.merge incoming.filters = .unchanged)
      (registered : work.find? incoming.attachment definition.filters.text = some member) :
      Visited incoming work member definition
        (work.push (definition.addDeclarations incoming.declarations), [work.arena.size])
  | extended (outcome : definition.filters.merge incoming.filters = .unchanged)
      (unregistered : work.find? incoming.attachment definition.filters.text ≠ some member) :
      Visited incoming work member definition (work.extend member incoming.declarations, [member])

theorem visit_visited (incoming : Definition) {work : Work} {member : Nat} {definition : Definition}
    (found : work.arena[member]? = some definition) :
    Visited incoming work member definition (visit incoming work member) := by
  simp only [visit, found]
  cases outcome : definition.filters.merge incoming.filters with
  | conflict => exact .apart outcome
  | unchanged =>
    simp only [absorb]
    split
    · next registered => exact .copied outcome registered
    · next unregistered => exact .extended outcome unregistered
  | merged filters =>
    simp only [Inheritance.split]
    cases known : work.find? incoming.attachment filters.text with
    | some other => exact .known filters outcome other known
    | none =>
      by_cases adds : ∃ next ∈ incoming.declarations, next.id ∉ definition.declarations.map Declaration.id
      · obtain ⟨first, rest, joined, -⟩ := Declaration.joined_of_new adds
        simp only [Definition.addDeclarations_declarations, joined, List.length_append, List.length_cons]
        rw [if_pos (by omega)]
        exact .split filters outcome known adds
      · push Not at adds
        simp only [Definition.addDeclarations_declarations, Declaration.joined_eq_self adds, lt_irrefl, if_false]
        exact .idle filters outcome known adds

section
variable {work : Work}

/-- Positions on file are positions of members, so that a member pushed next is not on file anywhere. -/
structure InRange (work : Work) : Prop where
  index : ∀ entry ∈ work.index, entry.2 < work.arena.size
  placed : ∀ entry ∈ work.placed, entry.2 < work.arena.size

theorem inRange_empty : InRange Work.empty where
  index := by simp [Work.empty]
  placed := by simp [Work.empty]

theorem InRange.find?_ne (range : InRange work) {attachment filters : String} :
    work.find? attachment filters ≠ some work.arena.size := by
  intro found
  obtain ⟨front, back, split, -⟩ := List.lookup_eq_some_iff.mp found
  have inside := range.index ((attachment, filters), work.arena.size) (by rw [split]; simp)
  exact Nat.lt_irrefl _ inside

theorem InRange.push (range : InRange work) (definition : Definition) : InRange (work.push definition) where
  index entry member := by
    have := range.index entry member
    simp only [Work.arena_push, Array.size_push]
    omega
  placed entry member := by
    have := range.placed entry member
    simp only [Work.arena_push, Array.size_push]
    omega

theorem InRange.extend (range : InRange work) (member : Nat) (declarations : List Declaration) :
    InRange (work.extend member declarations) where
  index entry isEntry := by simpa [Work.extend] using range.index entry isEntry
  placed entry isEntry := by simpa [Work.extend] using range.placed entry isEntry

theorem InRange.register (range : InRange work) (attachment filters : String) {member : Nat}
    (inside : member < work.arena.size) : InRange (work.register attachment filters member) where
  index := List.forall_mem_cons.mpr ⟨inside, range.index⟩
  placed := range.placed

theorem InRange.place (range : InRange work) (attachment : String) (member : Nat) : InRange (work.place attachment member) := by
  unfold Work.place
  split
  · rename_i definition found
    have inside := (Array.getElem?_eq_some_iff.mp found).1
    have registered := range.register attachment definition.filters.text inside
    exact ⟨registered.index, List.forall_mem_cons.mpr ⟨inside, range.placed⟩⟩
  · exact range

theorem InRange.visit (range : InRange work) (incoming : Definition) (member : Nat) :
    InRange (visit incoming work member).1 := by
  cases found : work.arena[member]? with
  | none => simpa only [Inheritance.visit, found] using range
  | some definition =>
    have cases := visit_visited incoming found
    generalize Inheritance.visit incoming work member = outcome at cases
    cases cases with
    | apart => exact range
    | idle => exact range
    | known filters outcome other known => exact range.extend other _
    | extended => exact range.extend member _
    | split filters outcome unknown adds => exact (range.push _).register _ _ (by simp)
    | copied => exact range.push _

end

/-- Members compare with numbers of `values`, and the index leads to members with the attachment and the filter text. -/
structure Sound (values : Set String) (work : Work) : Prop where
  compares : ∀ {member : Nat} {definition : Definition}, work.arena[member]? = some definition →
    definition.filters.Compares values
  index : ∀ {attachment filters : String} {member : Nat}, work.find? attachment filters = some member →
    ∃ definition, work.arena[member]? = some definition ∧ definition.attachment = attachment ∧
      definition.filters.text = filters

/-- What may happen to a member: nothing, or it takes the declarations of `incoming`. Then `incoming` adds nothing to its
filters, and what it accepts, one of the visited definitions accepts as well. -/
def Touched (incoming : Definition) (visited : Definition → Prop) (before after : Definition) : Prop :=
  after = before ∨ (after = before.addDeclarations incoming.declarations ∧ before.attachment = incoming.attachment ∧
    ∀ feature, before.filters.accepts feature →
      (∃ parent, visited parent ∧ parent.filters.accepts feature) ∧ before.filters.merge incoming.filters = .unchanged)

/-- A copy of `parent` that has taken the declarations of `incoming` and accepts no more than both. -/
structure Descends (incoming parent copy : Definition) : Prop where
  attachment : copy.attachment = parent.attachment
  declarations : copy.declarations = Declaration.joined parent.declarations incoming.declarations
  accepts : ∀ feature, copy.filters.accepts feature → parent.filters.accepts feature ∧ incoming.filters.accepts feature

structure Effect (values : Set String) (incoming : Definition) (visited : Definition → Prop) (before after : Work) : Prop where
  sound : Sound values after
  placed : after.placed = before.placed
  kept : ∀ {member : Nat} {definition : Definition}, before.arena[member]? = some definition →
    ∃ later, after.arena[member]? = some later ∧ Touched incoming visited definition later
  fresh : ∀ {member : Nat} {definition : Definition}, after.arena[member]? = some definition →
    before.arena[member]? = none → ∃ parent, visited parent ∧ Descends incoming parent definition
  index : ∀ attachment filters, after.find? attachment filters = before.find? attachment filters ∨
    (before.find? attachment filters = none ∧
      ∃ member, after.find? attachment filters = some member ∧ before.arena[member]? = none)

theorem Touched.filters {incoming before after : Definition} {visited : Definition → Prop}
    (touched : Touched incoming visited before after) : after.filters = before.filters := by
  rcases touched with rfl | ⟨rfl, -⟩
  · rfl
  · simp

theorem Touched.attachment {incoming before after : Definition} {visited : Definition → Prop}
    (touched : Touched incoming visited before after) : after.attachment = before.attachment := by
  rcases touched with rfl | ⟨rfl, -⟩
  · rfl
  · simp

variable {values : Set String} {incoming : Definition} {visited : Definition → Prop} {work : Work}

theorem Effect.refl (sound : Sound values work) : Effect values incoming visited work work where
  sound := sound
  placed := rfl
  kept := fun found => ⟨_, found, Or.inl rfl⟩
  fresh := fun found missing => by simp [missing] at found
  index := fun _ _ => Or.inl rfl

theorem effect_extend (sound : Sound values work) {member : Nat}
    (touched : ∀ definition, work.arena[member]? = some definition →
      Touched incoming visited definition (definition.addDeclarations incoming.declarations)) :
    Effect values incoming visited work (work.extend member incoming.declarations) where
  sound := by
    constructor
    · intro other definition found
      rw [Work.arena_extend] at found
      obtain ⟨old, foundOld, rfl⟩ := Option.map_eq_some_iff.mp found
      have compares := sound.compares foundOld
      split
      · simpa using compares
      · exact compares
    · intro attachment filters other known
      obtain ⟨old, foundOld, sameAttachment, sameText⟩ := sound.index known
      refine ⟨_, by rw [Work.arena_extend, foundOld]; rfl, ?_⟩
      split <;> simp [sameAttachment, sameText]
  placed := rfl
  kept := by
    intro other definition found
    refine ⟨_, by rw [Work.arena_extend, found]; rfl, ?_⟩
    split
    · next same => subst same; exact touched definition found
    · exact Or.inl rfl
  fresh := by
    intro other definition found missing
    rw [Work.arena_extend, missing] at found
    cases found
  index := fun _ _ => Or.inl rfl

theorem arena_push_cases {member : Nat} {copy definition : Definition}
    (found : (work.push copy).arena[member]? = some definition) :
    (member = work.arena.size ∧ definition = copy) ∨ work.arena[member]? = some definition := by
  rw [Work.arena_push, Array.getElem?_push] at found
  split at found
  · next same => exact Or.inl ⟨same, (Option.some.inj found).symm⟩
  · exact Or.inr found

theorem arena_push_old {member : Nat} {copy definition : Definition} (found : work.arena[member]? = some definition) :
    (work.push copy).arena[member]? = some definition := by
  have inside := (Array.getElem?_eq_some_iff.mp found).1
  rw [Work.arena_push, Array.getElem?_push, if_neg (by omega), found]

theorem effect_push (sound : Sound values work) {copy parent : Definition} (compares : copy.filters.Compares values)
    (isVisited : visited parent) (descends : Descends incoming parent copy) :
    Effect values incoming visited work (work.push copy) where
  sound := by
    constructor
    · intro member definition found
      rcases arena_push_cases found with ⟨-, rfl⟩ | foundOld
      · exact compares
      · exact sound.compares foundOld
    · intro attachment filters member known
      obtain ⟨old, foundOld, sameAttachment, sameText⟩ := sound.index known
      exact ⟨old, arena_push_old foundOld, sameAttachment, sameText⟩
  placed := rfl
  kept := fun found => ⟨_, arena_push_old found, Or.inl rfl⟩
  fresh := by
    intro member definition found missing
    rcases arena_push_cases found with ⟨-, rfl⟩ | foundOld
    · exact ⟨parent, isVisited, descends⟩
    · simp [missing] at foundOld
  index := fun _ _ => Or.inl rfl

theorem Sound.register (sound : Sound values work) {member : Nat} {definition : Definition}
    (found : work.arena[member]? = some definition) :
    Sound values (work.register definition.attachment definition.filters.text member) where
  compares := sound.compares
  index := by
    intro attachment filters other known
    rw [Work.find?_register] at known
    split at known
    · next same =>
      obtain rfl := Option.some.inj known
      exact ⟨definition, found, same.1.symm, same.2.symm⟩
    · exact sound.index known

theorem Effect.register {before : Work} (effect : Effect values incoming visited before work) {member : Nat}
    {definition : Definition} (found : work.arena[member]? = some definition) (missing : before.arena[member]? = none)
    (unknown : before.find? definition.attachment definition.filters.text = none) :
    Effect values incoming visited before (work.register definition.attachment definition.filters.text member) where
  sound := effect.sound.register found
  placed := effect.placed
  kept := effect.kept
  fresh := effect.fresh
  index := by
    intro attachment filters
    rw [Work.find?_register]
    split
    · next same => exact Or.inr ⟨same.1 ▸ same.2 ▸ unknown, member, rfl, missing⟩
    · exact effect.index attachment filters

variable (one : OneText values) (compares : incoming.filters.Compares values) (coherent : incoming.filters.Coherent)
include one compares coherent

theorem visit_effect (sound : Sound values work) {member : Nat} {definition : Definition}
    (found : work.arena[member]? = some definition) (sameAttachment : definition.attachment = incoming.attachment) :
    Effect values incoming (· = definition) work (visit incoming work member).1 := by
  have own := sound.compares found
  have cases := visit_visited incoming found
  generalize visit incoming work member = outcome at cases
  cases cases with
  | apart => exact Effect.refl sound
  | idle => exact Effect.refl sound
  | known filters merged other known =>
    obtain ⟨old, foundOld, oldAttachment, oldText⟩ := sound.index known
    have accepts := (FilterSet.merge_merged one own compares coherent merged)
    have oldCompares := sound.compares foundOld
    refine effect_extend sound fun again foundAgain => Or.inr ⟨rfl, ?_, fun feature accepted => ?_⟩
    · obtain rfl := Option.some.inj (foundOld.symm.trans foundAgain)
      exact oldAttachment
    · obtain rfl := Option.some.inj (foundOld.symm.trans foundAgain)
      -- the index leads to a member by its text, so that the member accepts what the merged filters accept
      have onMerged := FilterSet.accepts_of_text one accepts.1 oldCompares oldText.symm accepted
      exact ⟨⟨definition, rfl, ((accepts.2 feature).mp onMerged).1⟩,
        FilterSet.merge_absorbed one own compares coherent merged oldCompares oldText accepted⟩
  | split filters merged unknown adds =>
    have accepts := (FilterSet.merge_merged one own compares coherent merged)
    -- the copy has the merged filters, which accept what both definitions accept
    have descends : Descends incoming definition ({ definition with filters }.addDeclarations incoming.declarations) :=
      ⟨by simp, by simp, fun feature accepted => (accepts.2 feature).mp (by simpa using accepted)⟩
    have fresh : (work.push ({ definition with filters }.addDeclarations incoming.declarations)).arena[work.arena.size]? =
        some ({ definition with filters }.addDeclarations incoming.declarations) := Array.getElem?_push_size
    have pushed : Effect values incoming (· = definition) work _ :=
      effect_push sound (by simpa using accepts.1) rfl descends
    have registered := pushed.register fresh (by simp) (by simpa [sameAttachment] using unknown)
    simpa [sameAttachment] using registered
  | copied unchanged registered =>
    have descends : Descends incoming definition (definition.addDeclarations incoming.declarations) :=
      ⟨by simp, by simp, fun feature accepted => by
        have accepted : definition.filters.accepts feature := by simpa using accepted
        exact ⟨accepted, FilterSet.merge_unchanged one own compares unchanged accepted⟩⟩
    exact effect_push sound (by simpa using own) rfl descends
  | extended unchanged unregistered =>
    refine effect_extend sound fun again foundAgain => Or.inr ⟨rfl, ?_, fun feature accepted => ?_⟩
    · exact Option.some.inj (found.symm.trans foundAgain) ▸ sameAttachment
    · obtain rfl := Option.some.inj (found.symm.trans foundAgain)
      exact ⟨⟨definition, rfl, accepted⟩, unchanged⟩

end MapStyle.Inheritance
