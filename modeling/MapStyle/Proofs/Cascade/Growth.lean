import MapStyle.Proofs.Cascade.Run
/-!
What inheritance keeps whatever the filters are. Members of the arena stay, with the declarations that they start with,
and take only declarations of the originals; and every original ends up in the style of its attachment.
-/
namespace MapStyle
namespace Inheritance

/-- `definition` has the attachment of `own` and starts with what that declares. -/
structure Starts (own definition : Definition) : Prop where
  attachment : definition.attachment = own.attachment
  declarations : own.declarations <+: definition.declarations

theorem Starts.refl (own : Definition) : Starts own own := ⟨rfl, List.prefix_rfl⟩

theorem Starts.trans {first second third : Definition} (before : Starts first second) (after : Starts second third) :
    Starts first third := ⟨after.attachment.trans before.attachment, before.declarations.trans after.declarations⟩

theorem starts_add (definition : Definition) (declarations : List Declaration) :
    Starts definition (definition.addDeclarations declarations) := by
  constructor
  · simp
  · simpa using Declaration.prefix_joined definition.declarations declarations

/-- What stands at a member starts with what `own` declares. -/
def Present (own : Definition) (work : Work) (member : Nat) : Prop :=
  ∃ definition : Definition, work.arena[member]? = some definition ∧ Starts own definition

def Grows (before after : Work) : Prop :=
  ∀ (member : Nat) (definition : Definition), before.arena[member]? = some definition → Present definition after member

variable {work : Work} {incoming own : Definition}

theorem Grows.refl (work : Work) : Grows work work := fun _ definition found => ⟨definition, found, .refl definition⟩

theorem Grows.present {before after : Work} (grows : Grows before after) {member : Nat} (present : Present own before member) :
    Present own after member := by
  obtain ⟨definition, found, starts⟩ := present
  obtain ⟨later, foundLater, startsLater⟩ := grows member definition found
  exact ⟨later, foundLater, starts.trans startsLater⟩

theorem Grows.trans {before middle after : Work} (first : Grows before middle) (second : Grows middle after) :
    Grows before after := fun member definition found => second.present (first member definition found)

theorem grows_push (definition : Definition) : Grows work (work.push definition) :=
  fun _ old found => ⟨old, arena_push_old found, .refl old⟩

theorem grows_extend (member : Nat) (declarations : List Declaration) : Grows work (work.extend member declarations) := by
  intro other definition found
  refine ⟨_, by rw [Work.arena_extend, found]; rfl, ?_⟩
  split
  · exact starts_add definition declarations
  · exact .refl definition

theorem visit_placed (incoming : Definition) (work : Work) (member : Nat) :
    (visit incoming work member).1.placed = work.placed := by
  cases found : work.arena[member]? with
  | none => simp only [visit, found]
  | some definition =>
    have cases := visit_visited incoming found
    generalize visit incoming work member = outcome at cases
    cases cases <;> rfl

theorem visitAll_placed (incoming : Definition) (work : Work) (members : List Nat) :
    (visitAll incoming work members).1.placed = work.placed := by
  induction members generalizing work with
  | nil => rfl
  | cons member rest ih => exact (ih _).trans (visit_placed incoming work member)

theorem visit_grows {member : Nat} (present : Present own work member) :
    Grows work (visit incoming work member).1 ∧ (visit incoming work member).2 ≠ [] ∧
      ∀ other ∈ (visit incoming work member).2, Present own (visit incoming work member).1 other := by
  obtain ⟨definition, found, starts⟩ := present
  have cases := visit_visited incoming found
  generalize visit incoming work member = outcome at cases
  -- a member that answers for itself has kept its declarations
  have itself : ∀ {after : Work}, Grows work after → ∀ other ∈ [member], Present own after other := by
    intro after grows other isMember
    obtain rfl := List.mem_singleton.mp isMember
    exact grows.present ⟨definition, found, starts⟩
  cases cases with
  | apart => exact ⟨.refl work, by simp, itself (.refl work)⟩
  | idle => exact ⟨.refl work, by simp, itself (.refl work)⟩
  | known filters outcome other known => exact ⟨grows_extend _ _, by simp, itself (grows_extend _ _)⟩
  | extended => exact ⟨grows_extend _ _, by simp, itself (grows_extend _ _)⟩
  | split filters outcome unknown adds =>
    have narrowed : Starts definition { definition with filters } := ⟨rfl, List.prefix_rfl⟩
    have copy : Present own (work.push ({ definition with filters }.addDeclarations incoming.declarations)) work.arena.size :=
      ⟨_, Array.getElem?_push_size, starts.trans (narrowed.trans (starts_add _ _))⟩
    exact ⟨grows_push _, by simp, List.forall_mem_cons.mpr ⟨copy, itself (grows_push _)⟩⟩
  | copied =>
    have copy : Present own (work.push (definition.addDeclarations incoming.declarations)) work.arena.size :=
      ⟨_, Array.getElem?_push_size, starts.trans (starts_add _ _)⟩
    exact ⟨grows_push _, by simp, List.forall_mem_singleton.mpr copy⟩

theorem visitAll_grows {members : List Nat} (present : ∀ member ∈ members, Present own work member) :
    Grows work (visitAll incoming work members).1 ∧ (members ≠ [] → (visitAll incoming work members).2 ≠ []) ∧
      ∀ member ∈ (visitAll incoming work members).2, Present own (visitAll incoming work members).1 member := by
  induction members generalizing work with
  | nil => exact ⟨.refl work, id, by simp [visitAll]⟩
  | cons member rest ih =>
    obtain ⟨presentHere, presentRest⟩ := List.forall_mem_cons.mp present
    obtain ⟨grows, nonempty, answers⟩ := @visit_grows work incoming own member presentHere
    obtain ⟨growsAfter, -, answersAfter⟩ := ih fun other inRest => grows.present (presentRest other inRest)
    rw [visitAll]
    constructor
    · exact grows.trans growsAfter
    constructor
    · simp [nonempty]
    · rw [List.forall_mem_append]
      exact ⟨fun other answered => growsAfter.present (answers other answered), answersAfter⟩

/-- A pass ends with members that start with what its definition declares. -/
theorem passed_grows (own : Definition) (later : List Definition) :
    Grows work (passed work own later).1 ∧ (passed work own later).2 ≠ [] ∧
      ∀ member ∈ (passed work own later).2, Present own (passed work own later).1 member := by
  apply pass_induction fun after members => Grows work after ∧ members ≠ [] ∧ ∀ member ∈ members, Present own after member
  · rintro incoming - after members ⟨grows, nonempty, present⟩
    obtain ⟨growsHere, staysNonempty, presentHere⟩ := @visitAll_grows after incoming own members present
    exact ⟨grows.trans growsHere, staysNonempty nonempty, presentHere⟩
  · have start : Present own (work.push own) work.arena.size := ⟨own, Array.getElem?_push_size, .refl own⟩
    exact ⟨grows_push own, by simp, List.forall_mem_singleton.mpr start⟩

theorem passed_placed (own : Definition) (later : List Definition) : (passed work own later).1.placed = work.placed := by
  apply pass_induction fun after _ => after.placed = work.placed
  · exact fun incoming _ after members same => (visitAll_placed incoming after members).trans same
  · rfl

/-- A step places what has become of its definition behind what is placed already. -/
theorem step_grows (own : Definition) (later : List Definition) :
    Grows work (step work own later) ∧ (∀ attachment, work.placedFor attachment <+: (step work own later).placedFor attachment) ∧
      ∃ member ∈ (step work own later).placedFor own.attachment, Present own (step work own later) member := by
  obtain ⟨grows, nonempty, present⟩ := @passed_grows work own later
  obtain ⟨sameArena, placed⟩ := @placeAll_eq (passed work own later).1 own.attachment (passed work own later).2
    fun member isMember => (present member isMember).imp fun _ => And.left
  rw [← step_eq, passed_placed] at placed
  rw [← step_eq] at sameArena
  have still : ∀ {definition : Definition} {member : Nat}, Present definition (passed work own later).1 member →
      Present definition (step work own later) member := by
    rintro definition member ⟨found, isThere, starts⟩
    exact ⟨found, sameArena ▸ isThere, starts⟩
  constructor
  · exact fun member definition found => still (grows member definition found)
  constructor
  · intro attachment
    rw [placedFor_append placed]
    exact List.prefix_append _ _
  · obtain ⟨first, rest, split⟩ := List.exists_cons_of_ne_nil nonempty
    have isMember : first ∈ (passed work own later).2 := by simp [split]
    refine ⟨first, ?_, still (present first isMember)⟩
    rw [placedFor_append placed, if_pos rfl]
    exact List.mem_append_right _ isMember

theorem resolveFrom_grows (definitions : List Definition) :
    Grows work (resolveFrom work definitions) ∧
      ∀ attachment, work.placedFor attachment <+: (resolveFrom work definitions).placedFor attachment := by
  induction definitions generalizing work with
  | nil => exact ⟨.refl work, fun _ => List.prefix_rfl⟩
  | cons definition later ih =>
    obtain ⟨grows, placed, -⟩ := @step_grows work definition later
    obtain ⟨growsAfter, placedAfter⟩ := @ih (step work definition later)
    exact ⟨grows.trans growsAfter, fun attachment => (placed attachment).trans (placedAfter attachment)⟩

/-- Every definition has a member in the style of its attachment that starts with what it declares. -/
theorem resolveFrom_present {definitions : List Definition} {own : Definition} (isOriginal : own ∈ definitions) :
    ∃ member ∈ (resolveFrom work definitions).placedFor own.attachment,
      Present own (resolveFrom work definitions) member := by
  induction definitions generalizing work with
  | nil => simp at isOriginal
  | cons definition later ih =>
    rcases List.mem_cons.mp isOriginal with rfl | isLater
    · obtain ⟨-, -, member, placed, present⟩ := @step_grows work own later
      obtain ⟨grows, kept⟩ := @resolveFrom_grows (step work own later) later
      exact ⟨member, (kept own.attachment).mem placed, grows.present present⟩
    · exact ih isLater

section declares
variable {known : Declaration → Prop}

def Declares (known : Declaration → Prop) (work : Work) : Prop :=
  ∀ (member : Nat) (definition : Definition), work.arena[member]? = some definition →
    ∀ declaration ∈ definition.declarations, known declaration

theorem declares_push (declares : Declares known work) {copy : Definition}
    (knownCopy : ∀ declaration ∈ copy.declarations, known declaration) : Declares known (work.push copy) := by
  intro member definition found
  rcases arena_push_cases found with ⟨-, rfl⟩ | foundOld
  · exact knownCopy
  · exact declares member definition foundOld

variable (knownIncoming : ∀ declaration ∈ incoming.declarations, known declaration)
include knownIncoming

theorem known_joined {old : List Declaration} (knownOld : ∀ declaration ∈ old, known declaration) :
    ∀ declaration ∈ Declaration.joined old incoming.declarations, known declaration := by
  intro declaration inside
  rcases Declaration.mem_joined inside with isOld | isIncoming
  · exact knownOld declaration isOld
  · exact knownIncoming declaration isIncoming

theorem declares_extend (declares : Declares known work) (member : Nat) :
    Declares known (work.extend member incoming.declarations) := by
  intro other definition found
  rw [Work.arena_extend] at found
  obtain ⟨old, foundOld, rfl⟩ := Option.map_eq_some_iff.mp found
  split
  · simpa using known_joined knownIncoming (declares other old foundOld)
  · exact declares other old foundOld

theorem visit_declares (declares : Declares known work) (member : Nat) :
    Declares known (visit incoming work member).1 := by
  cases found : work.arena[member]? with
  | none => simpa only [visit, found] using declares
  | some definition =>
    have joined := known_joined knownIncoming (declares member definition found)
    have cases := visit_visited incoming found
    generalize visit incoming work member = outcome at cases
    cases cases with
    | apart => exact declares
    | idle => exact declares
    | known filters outcome other isKnown => exact declares_extend knownIncoming declares other
    | extended => exact declares_extend knownIncoming declares member
    | split filters outcome unknown adds => exact declares_push declares (by simpa using joined)
    | copied => exact declares_push declares (by simpa using joined)

theorem visitAll_declares (declares : Declares known work) (members : List Nat) :
    Declares known (visitAll incoming work members).1 := by
  induction members generalizing work with
  | nil => exact declares
  | cons member rest ih => exact ih (visit_declares knownIncoming declares member)

omit knownIncoming

theorem step_declares (declares : Declares known work) {definition : Definition} {later : List Definition}
    (knownAll : ∀ other ∈ definition :: later, ∀ declaration ∈ other.declarations, known declaration) :
    Declares known (step work definition later) := by
  obtain ⟨knownHere, knownLater⟩ := List.forall_mem_cons.mp knownAll
  have passing : Declares known (passed work definition later).1 := by
    apply pass_induction fun after _ => Declares known after
    · intro incoming follows after members declares
      exact visitAll_declares (knownLater incoming (mem_followers.mp follows).1) declares members
    · exact declares_push declares knownHere
  have sameArena : (step work definition later).arena = (passed work definition later).1.arena := by
    obtain ⟨-, -, present⟩ := @passed_grows work definition later
    exact (placeAll_eq fun member isMember => (present member isMember).imp fun _ => And.left).1
  intro member other found
  exact passing member other (sameArena ▸ found)

theorem resolveFrom_declares (declares : Declares known work) {definitions : List Definition}
    (knownAll : ∀ other ∈ definitions, ∀ declaration ∈ other.declarations, known declaration) :
    Declares known (resolveFrom work definitions) := by
  induction definitions generalizing work with
  | nil => exact declares
  | cons definition later ih =>
    exact ih (step_declares declares knownAll) fun other isLater => knownAll other (List.mem_cons_of_mem _ isLater)

end declares

end Inheritance
end MapStyle
