import MapStyle.Proofs.Cascade.Arena
/-!
One turn of inheritance: all members of a pass are visited for the same incoming definition. The effects of the visits
add up to one effect of the same kind, since what a member has taken it does not take twice.
-/
namespace MapStyle.Inheritance
variable {values : Set String} {incoming : Definition} {visited earlier later : Definition → Prop}

theorem Touched.mono {before after : Definition} (touched : Touched incoming earlier before after)
    (imply : ∀ parent, earlier parent → ∃ origin, later origin ∧ parent.filters = origin.filters) :
    Touched incoming later before after := by
  rcases touched with same | ⟨taken, sameAttachment, seen⟩
  · exact Or.inl same
  · refine Or.inr ⟨taken, sameAttachment, fun feature accepted => ?_⟩
    obtain ⟨⟨parent, isEarlier, onParent⟩, unchanged⟩ := seen feature accepted
    obtain ⟨origin, isLater, sameFilters⟩ := imply parent isEarlier
    exact ⟨⟨origin, isLater, sameFilters ▸ onParent⟩, unchanged⟩

theorem Touched.trans {before middle after : Definition} (first : Touched incoming visited before middle)
    (second : Touched incoming visited middle after) : Touched incoming visited before after := by
  rcases first with rfl | ⟨taken, seen⟩
  · exact second
  · rcases second with rfl | ⟨takenAgain, -⟩
    · exact Or.inr ⟨taken, seen⟩
    · refine Or.inr ⟨?_, seen⟩
      rw [takenAgain, taken, Definition.addDeclarations_of_present]
      intro next member
      simpa using Declaration.ids_joined member

/-- A copy descends from what its parent was before it was touched. -/
theorem Descends.of_touched {origin parent copy : Definition} (touched : Touched incoming visited origin parent)
    (descends : Descends incoming parent copy) : Descends incoming origin copy where
  attachment := descends.attachment.trans touched.attachment
  declarations := by
    rw [descends.declarations]
    rcases touched with rfl | ⟨rfl, -⟩
    · rfl
    · simp [Declaration.joined_joined]
  accepts := touched.filters ▸ descends.accepts

theorem Descends.touched {parent copy after : Definition} (descends : Descends incoming parent copy)
    (touched : Touched incoming visited copy after) : Descends incoming parent after where
  attachment := touched.attachment.trans descends.attachment
  declarations := by
    rcases touched with rfl | ⟨rfl, -⟩
    · exact descends.declarations
    · simp [descends.declarations, Declaration.joined_joined]
  accepts := touched.filters ▸ descends.accepts

theorem Effect.trans {before middle after : Work} (first : Effect values incoming earlier before middle)
    (second : Effect values incoming later middle after) (fromEarlier : ∀ parent, earlier parent → visited parent)
    (fromLater : ∀ parent, later parent → ∃ origin, visited origin ∧ Touched incoming visited origin parent) :
    Effect values incoming visited before after where
  sound := second.sound
  placed := second.placed.trans first.placed
  kept := by
    intro member definition found
    obtain ⟨there, foundThere, touched⟩ := first.kept found
    obtain ⟨after, foundAfter, touchedAgain⟩ := second.kept foundThere
    refine ⟨after, foundAfter, (touched.mono fun parent isEarlier => ⟨parent, fromEarlier parent isEarlier, rfl⟩).trans ?_⟩
    refine touchedAgain.mono fun parent isLater => ?_
    obtain ⟨origin, isVisited, sinceTouched⟩ := fromLater parent isLater
    exact ⟨origin, isVisited, sinceTouched.filters⟩
  fresh := by
    intro member definition found missing
    cases there : middle.arena[member]? with
    | none =>
      obtain ⟨parent, isLater, descends⟩ := second.fresh found there
      obtain ⟨origin, isVisited, touched⟩ := fromLater parent isLater
      exact ⟨origin, isVisited, descends.of_touched touched⟩
    -- the copy was made by the first effect, and the second may have touched it
    | some copy =>
      obtain ⟨parent, isEarlier, descends⟩ := first.fresh there missing
      obtain ⟨after, foundAfter, touched⟩ := second.kept there
      obtain rfl := Option.some.inj (foundAfter.symm.trans found)
      exact ⟨parent, fromEarlier parent isEarlier, descends.touched touched⟩
  index := by
    intro attachment filters
    rcases first.index attachment filters with same | ⟨unknown, member, known, missing⟩ <;>
      rcases second.index attachment filters with sameAgain | ⟨unknownAgain, memberAgain, knownAgain, missingAgain⟩
    · exact Or.inl (sameAgain.trans same)
    · refine Or.inr ⟨same ▸ unknownAgain, memberAgain, knownAgain, ?_⟩
      cases there : before.arena[memberAgain]? with
      | none => rfl
      | some old =>
        obtain ⟨kept, foundKept, -⟩ := first.kept there
        simp [missingAgain] at foundKept
    · exact Or.inr ⟨unknown, member, sameAgain.trans known, missing⟩
    -- what the first has registered is not unknown to the second
    · simp [known] at unknownAgain

/-- The definitions that stand at the given members. -/
def Among (work : Work) (members : List Nat) (definition : Definition) : Prop :=
  ∃ member ∈ members, work.arena[member]? = some definition

def Standing (work : Work) (attachment : String) (members : List Nat) : Prop :=
  ∀ member ∈ members, ∃ definition, work.arena[member]? = some definition ∧ definition.attachment = attachment

theorem Standing.attachment {work : Work} {attachment : String} {members : List Nat}
    (standing : Standing work attachment members) {member : Nat} (isMember : member ∈ members) {definition : Definition}
    (found : work.arena[member]? = some definition) : definition.attachment = attachment := by
  obtain ⟨again, foundAgain, sameAttachment⟩ := standing member isMember
  obtain rfl := Option.some.inj (foundAgain.symm.trans found)
  exact sameAttachment

theorem Effect.standing {before after : Work} (effect : Effect values incoming visited before after) {attachment : String}
    {members : List Nat} (standing : Standing before attachment members) : Standing after attachment members := by
  intro member isMember
  obtain ⟨definition, found, sameAttachment⟩ := standing member isMember
  obtain ⟨later, foundLater, touched⟩ := effect.kept found
  exact ⟨later, foundLater, touched.attachment.trans sameAttachment⟩

variable (one : OneText values) (compares : incoming.filters.Compares values) (coherent : incoming.filters.Coherent)
include one compares coherent

theorem visitAll_effect {work : Work} (sound : Sound values work) {members : List Nat}
    (standing : Standing work incoming.attachment members) :
    Effect values incoming (Among work members) work (visitAll incoming work members).1 := by
  induction members generalizing work with
  | nil => exact Effect.refl sound
  | cons member rest ih =>
    obtain ⟨definition, found, sameAttachment⟩ := standing member List.mem_cons_self
    have here := visit_effect one compares coherent sound found sameAttachment
    have standingRest : Standing work incoming.attachment rest :=
      fun other inRest => standing other (List.mem_cons_of_mem _ inRest)
    have after := ih here.sound (here.standing standingRest)
    -- this visit may have touched members that are visited after it, whose origins stood there before
    refine here.trans after ?_ ?_
    · rintro parent rfl
      exact ⟨member, List.mem_cons_self, found⟩
    · rintro parent ⟨other, inRest, foundAfter⟩
      obtain ⟨origin, foundBefore, -⟩ := standingRest other inRest
      obtain ⟨later, foundLater, touched⟩ := here.kept foundBefore
      obtain rfl := Option.some.inj (foundLater.symm.trans foundAfter)
      refine ⟨origin, ⟨other, List.mem_cons_of_mem _ inRest, foundBefore⟩, touched.mono ?_⟩
      rintro parent rfl
      exact ⟨parent, ⟨member, List.mem_cons_self, found⟩, rfl⟩

omit compares coherent one in
theorem visit_answer {work : Work} {member : Nat} {definition : Definition} (found : work.arena[member]? = some definition) :
    ∀ other ∈ (visit incoming work member).2, other = member ∨
      (work.arena[other]? = none ∧ ∃ later, (visit incoming work member).1.arena[other]? = some later) := by
  have cases := visit_visited incoming found
  generalize visit incoming work member = outcome at cases
  cases cases <;> simp

theorem visitAll_answer {work : Work} (sound : Sound values work) {members : List Nat}
    (standing : Standing work incoming.attachment members) :
    ∀ other ∈ (visitAll incoming work members).2, other ∈ members ∨
      (work.arena[other]? = none ∧ ∃ later, (visitAll incoming work members).1.arena[other]? = some later) := by
  induction members generalizing work with
  | nil => simp [visitAll]
  | cons member rest ih =>
    obtain ⟨definition, found, sameAttachment⟩ := standing member List.mem_cons_self
    have here := visit_effect one compares coherent sound found sameAttachment
    have standingAfter := here.standing fun other inRest => standing other (List.mem_cons_of_mem _ inRest)
    have after := visitAll_effect one compares coherent here.sound standingAfter
    intro other answered
    rcases List.mem_append.mp answered with fromHere | fromRest
    · rcases visit_answer found other fromHere with rfl | ⟨missing, copy, foundCopy⟩
      · exact Or.inl List.mem_cons_self
      · obtain ⟨later, foundLater, -⟩ := after.kept foundCopy
        exact Or.inr ⟨missing, later, foundLater⟩
    · rcases ih here.sound standingAfter other fromRest with inRest | ⟨missing, later⟩
      · exact Or.inl (List.mem_cons_of_mem _ inRest)
      -- a member that is missing after this visit was missing before it
      · refine Or.inr ⟨?_, later⟩
        cases before : work.arena[other]? with
        | none => rfl
        | some old =>
          obtain ⟨there, foundThere, -⟩ := here.kept before
          simp [missing] at foundThere

omit one compares coherent

/-- A definition that has inherited from others: it starts with the declarations of `own` and sees no other features. -/
structure Belongs (own definition : Definition) : Prop where
  attachment : definition.attachment = own.attachment
  declarations : own.declarations <+: definition.declarations
  accepts : ∀ feature, definition.filters.accepts feature → own.filters.accepts feature

theorem Belongs.refl (own : Definition) : Belongs own own := ⟨rfl, List.prefix_rfl, fun _ => id⟩

theorem Belongs.touched {own before after : Definition} (belongs : Belongs own before)
    (touched : Touched incoming visited before after) : Belongs own after where
  attachment := touched.attachment.trans belongs.attachment
  declarations := by
    rcases touched with rfl | ⟨rfl, -⟩
    · exact belongs.declarations
    · simpa using belongs.declarations.trans (Declaration.prefix_joined _ _)
  accepts := touched.filters ▸ belongs.accepts

theorem Belongs.descends {own parent copy : Definition} (belongs : Belongs own parent)
    (descends : Descends incoming parent copy) : Belongs own copy where
  attachment := descends.attachment.trans belongs.attachment
  declarations := descends.declarations ▸ belongs.declarations.trans (Declaration.prefix_joined _ _)
  accepts := fun feature accepted => belongs.accepts feature (descends.accepts feature accepted).1

def Members (own : Definition) (work : Work) (members : List Nat) : Prop :=
  ∀ member ∈ members, ∃ definition, work.arena[member]? = some definition ∧ Belongs own definition

theorem Members.standing {own : Definition} {work : Work} {members : List Nat} (belong : Members own work members) :
    Standing work own.attachment members := fun member isMember =>
  (belong member isMember).imp fun _ found => ⟨found.1, found.2.attachment⟩

theorem Members.belongs {own : Definition} {work : Work} {members : List Nat} (belong : Members own work members)
    {definition : Definition} (among : Among work members definition) : Belongs own definition := by
  obtain ⟨member, isMember, found⟩ := among
  obtain ⟨again, foundAgain, belongs⟩ := belong member isMember
  obtain rfl := Option.some.inj (foundAgain.symm.trans found)
  exact belongs

include one compares coherent

/-- After a turn, the members of a pass are still members of that pass. -/
theorem visitAll_members {own : Definition} {work : Work} (sound : Sound values work) {members : List Nat}
    (belong : Members own work members) (sameAttachment : incoming.attachment = own.attachment) :
    Members own (visitAll incoming work members).1 (visitAll incoming work members).2 := by
  have standing : Standing work incoming.attachment members := sameAttachment ▸ belong.standing
  have effect := visitAll_effect one compares coherent sound standing
  intro other answered
  rcases visitAll_answer one compares coherent sound standing other answered with isMember | ⟨missing, later, foundLater⟩
  · obtain ⟨definition, found, belongs⟩ := belong other isMember
    obtain ⟨later, foundLater, touched⟩ := effect.kept found
    exact ⟨later, foundLater, belongs.touched touched⟩
  · obtain ⟨parent, among, descends⟩ := effect.fresh foundLater missing
    exact ⟨later, foundLater, (belong.belongs among).descends descends⟩

end MapStyle.Inheritance
