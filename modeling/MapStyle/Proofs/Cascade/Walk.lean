import MapStyle.Proofs.Cascade.Leading
import MapStyle.Proofs.Cascade.Origin
/-!
The cascade as a walk: a feature gets the declarations of the first definition that accepts it, and then, in cascade
order, what the others that accept it declare under new ids. Inheritance gives the first resulting definition that
accepts the feature these declarations, unless a turn of its pass diverts some of them to another member.
-/
namespace MapStyle

namespace Definition

def gather (known : List Declaration) (definitions : List Definition) : List Declaration :=
  definitions.foldl (fun known definition => Declaration.joined known definition.declarations) known

/-- The declarations of the first definition, and those of the others whose ids are not there yet. -/
def walk : List Definition → List Declaration
  | [] => []
  | first :: rest => gather first.declarations rest

open Classical in
noncomputable def accepting (feature : Feature) (definitions : List Definition) : List Definition :=
  definitions.filter fun definition => definition.filters.accepts feature

theorem gather_cons (known : List Declaration) (definition : Definition) (rest : List Definition) :
    gather known (definition :: rest) = gather (Declaration.joined known definition.declarations) rest := rfl

theorem gather_append (known : List Declaration) (first second : List Definition) :
    gather known (first ++ second) = gather (gather known first) second := List.foldl_append

theorem prefix_gather (known : List Declaration) (definitions : List Definition) : known <+: gather known definitions := by
  induction definitions generalizing known with
  | nil => exact List.prefix_rfl
  | cons definition rest ih => exact (Declaration.prefix_joined known _).trans (ih _)

theorem ids_gather {known : List Declaration} {definitions : List Definition} {definition : Definition}
    (member : definition ∈ definitions) {next : Declaration} (declares : next ∈ definition.declarations) :
    next.id ∈ (gather known definitions).map Declaration.id := by
  induction definitions generalizing known with
  | nil => simp at member
  | cons head rest ih =>
    rcases List.mem_cons.mp member with rfl | inRest
    · exact Declaration.ids_of_prefix (prefix_gather _ rest) (Declaration.ids_joined declares)
    · exact ih inRest

theorem ids_walk {definitions : List Definition} {definition : Definition} (member : definition ∈ definitions)
    {next : Declaration} (declares : next ∈ definition.declarations) :
    next.id ∈ (walk definitions).map Declaration.id := by
  cases definitions with
  | nil => simp at member
  | cons first rest =>
    rcases List.mem_cons.mp member with rfl | inRest
    · exact Declaration.ids_of_prefix (prefix_gather _ rest) (List.mem_map_of_mem declares)
    · exact ids_gather inRest declares

theorem mem_accepting {feature : Feature} {definitions : List Definition} {definition : Definition} :
    definition ∈ accepting feature definitions ↔ definition ∈ definitions ∧ definition.filters.accepts feature := by
  simp [accepting]

theorem accepting_cons_of_accepts {feature : Feature} {definition : Definition} (rest : List Definition)
    (accepts : definition.filters.accepts feature) :
    accepting feature (definition :: rest) = definition :: accepting feature rest := by
  simp [accepting, accepts]

theorem accepting_cons_of_rejects {feature : Feature} {definition : Definition} (rest : List Definition)
    (rejects : ¬ definition.filters.accepts feature) :
    accepting feature (definition :: rest) = accepting feature rest := by
  simp [accepting, rejects]

theorem accepting_append (feature : Feature) (first second : List Definition) :
    accepting feature (first ++ second) = accepting feature first ++ accepting feature second := List.filter_append ..

end Definition

namespace Inheritance
variable {values : Set String} {feature : Feature}

def PassDiverts (feature : Feature) (work : Work) (members : List Nat) : List Definition → Prop
  | [] => False
  | incoming :: later => Diverts feature work members incoming ∨
    PassDiverts feature (visitAll incoming work members).1 (visitAll incoming work members).2 later

open Classical in
/-- The pass of the first definition of the attachment that accepts the feature diverts declarations. -/
def RunDiverts (attachment : String) (feature : Feature) (work : Work) : List Definition → Prop
  | [] => False
  | definition :: later =>
    if definition.attachment = attachment ∧ definition.filters.accepts feature then
      PassDiverts feature (work.push definition) [work.arena.size] (followers definition later)
    else RunDiverts attachment feature (step work definition later) later

/-- A definition that has not taken what `lost` declares: it gains from `lost` still, or has taken of others first. -/
def Behind (lost : Definition) (others : List Definition) (known : List Declaration) (definition : Definition) : Prop :=
  (definition.declarations = known ∧ definition.filters.merge lost.filters ≠ .unchanged) ∨
    ∃ next rest, definition.declarations = known ++ next :: rest ∧ ∃ other ∈ others, next ∈ other.declarations

theorem Behind.join {lost before after : Definition} {others : List Definition} {known : List Declaration}
    {incoming : Definition} (behind : Behind lost others known before)
    (isOther : before.declarations = known → incoming ∈ others)
    (declarations : after.declarations = Declaration.joined before.declarations incoming.declarations)
    (narrowed : after.filters = before.filters ∨ after.declarations ≠ before.declarations) :
    Behind lost others known after := by
  obtain ⟨new, joined, inside⟩ := Declaration.joined_eq_append before.declarations incoming.declarations
  rw [joined] at declarations
  rcases behind with ⟨same, gains⟩ | ⟨next, rest, same, source⟩
  · cases new with
    | nil =>
      rw [List.append_nil] at declarations
      have sameFilters := narrowed.resolve_right fun differs => differs declarations
      exact Or.inl ⟨declarations.trans same, sameFilters ▸ gains⟩
    | cons next rest =>
      exact Or.inr ⟨next, rest, same ▸ declarations, incoming, isOther same, inside next List.mem_cons_self⟩
  · exact Or.inr ⟨next, rest ++ new, by rw [declarations, same]; simp, source⟩

theorem Behind.advance {lost incoming before after : Definition} {others : List Definition} {known : List Declaration}
    {work : Work} {members : List Nat} (behind : Behind lost others known before) (isOther : incoming ∈ others)
    (advances : Advances feature work members incoming before after) : Behind lost others known after := by
  cases advances with
  | rejected => exact behind
  | diverted => exact behind
  | taken _ accepts straight declarations narrowed => exact behind.join (fun _ => isOther) declarations narrowed

/-- A pass under way for `own`, with the member that leads. -/
structure Underway (values : Set String) (own : Definition) (feature : Feature) (work : Work) (members : List Nat)
    (member : Nat) (definition : Definition) : Prop where
  sound : Sound values work
  belong : Members own work members
  leading : Leading work feature members member definition

variable (one : OneText values)
include one

theorem Underway.turn {own definition incoming : Definition} {work : Work} {members : List Nat} {member : Nat}
    (underway : Underway values own feature work members member definition) (plain : Plain values incoming)
    (sameAttachment : incoming.attachment = own.attachment) :
    ∃ other later, Underway values own feature (visitAll incoming work members).1 (visitAll incoming work members).2 other
      later ∧ Advances feature work members incoming definition later := by
  have standing : Standing work incoming.attachment members := sameAttachment ▸ underway.belong.standing
  obtain ⟨other, later, leading, advances⟩ :=
    visitAll_leading one plain.compares plain.coherent underway.sound standing underway.leading
  exact ⟨other, later, ⟨(visitAll_effect one plain.compares plain.coherent underway.sound standing).sound,
    visitAll_members one plain.compares plain.coherent underway.sound underway.belong sameAttachment, leading⟩, advances⟩

variable {own : Definition} {later : List Definition} (plain : ∀ other ∈ later, Plain values other)
  (sameAttachment : ∀ other ∈ later, other.attachment = own.attachment)
include plain sameAttachment

theorem pass_straight {work : Work} {members : List Nat} {member : Nat} {definition : Definition}
    (underway : Underway values own feature work members member definition)
    (straight : ¬ PassDiverts feature work members later) :
    ∃ other leader, Underway values own feature (pass work members later).1 (pass work members later).2 other leader ∧
      leader.declarations = Definition.gather definition.declarations (Definition.accepting feature later) := by
  induction later generalizing work members member definition with
  | nil => exact ⟨member, definition, underway, rfl⟩
  | cons incoming rest ih =>
    obtain ⟨straightHere, straightAfter⟩ := not_or.mp straight
    obtain ⟨other, next, underwayAfter, advances⟩ := underway.turn one (plain incoming List.mem_cons_self)
      (sameAttachment incoming List.mem_cons_self)
    obtain ⟨last, leader, underwayLast, gathered⟩ := ih (fun other inRest => plain other (List.mem_cons_of_mem _ inRest))
      (fun other inRest => sameAttachment other (List.mem_cons_of_mem _ inRest)) underwayAfter straightAfter
    refine ⟨last, leader, underwayLast, gathered.trans ?_⟩
    cases advances with
    | rejected rejects => rw [Definition.accepting_cons_of_rejects rest rejects]
    | diverted diverts => exact absurd diverts straightHere
    | taken _ accepts _ declarations _ => rw [Definition.accepting_cons_of_accepts rest accepts, declarations]; rfl

theorem pass_behind {lost : Definition} {others : List Definition} {known : List Declaration} {work : Work}
    {members : List Nat} {member : Nat} {definition : Definition}
    (underway : Underway values own feature work members member definition) (behind : Behind lost others known definition)
    (areOthers : ∀ other ∈ later, other ∈ others) :
    ∃ other leader, Underway values own feature (pass work members later).1 (pass work members later).2 other leader ∧
      Behind lost others known leader := by
  refine pass_induction (fun work members => ∃ other leader,
    Underway values own feature work members other leader ∧ Behind lost others known leader) ?_
    ⟨member, definition, underway, behind⟩
  rintro incoming isLater work members ⟨other, leader, underway, behind⟩
  obtain ⟨next, after, underwayAfter, advances⟩ :=
    underway.turn one (plain incoming isLater) (sameAttachment incoming isLater)
  exact ⟨next, after, underwayAfter, behind.advance (areOthers incoming isLater) advances⟩

theorem pass_diverted {work : Work} {members : List Nat} {member : Nat} {definition : Definition}
    (underway : Underway values own feature work members member definition)
    (diverts : PassDiverts feature work members later) :
    ∃ front lost back, later = front ++ lost :: back ∧ lost.filters.accepts feature ∧
      (∃ next ∈ lost.declarations, next.id ∉
        (Definition.gather definition.declarations (Definition.accepting feature front)).map Declaration.id) ∧
      ∃ other leader, Underway values own feature (pass work members later).1 (pass work members later).2 other leader ∧
        Behind lost back (Definition.gather definition.declarations (Definition.accepting feature front)) leader := by
  induction later generalizing work members member definition with
  | nil => exact absurd diverts id
  | cons incoming rest ih =>
    have plainRest := fun other (inRest : other ∈ rest) => plain other (List.mem_cons_of_mem _ inRest)
    have sameRest := fun other (inRest : other ∈ rest) => sameAttachment other (List.mem_cons_of_mem _ inRest)
    obtain ⟨other, next, underwayAfter, advances⟩ := underway.turn one (plain incoming List.mem_cons_self)
      (sameAttachment incoming List.mem_cons_self)
    cases advances with
    -- from this turn on the leading member is behind
    | diverted here gains =>
      obtain ⟨accepts, leadingMember, leader, filters, leading, merged, known, missing⟩ := here
      obtain ⟨-, rfl⟩ := underway.leading.unique leading
      exact ⟨[], incoming, rest, rfl, accepts, missing,
        pass_behind one plainRest sameRest underwayAfter (Or.inl ⟨rfl, gains⟩) fun _ => id⟩
    | rejected rejects =>
      have divertsAfter := diverts.resolve_left fun here => rejects here.1
      obtain ⟨front, lost, back, rfl, accepts, missing, behind⟩ := ih plainRest sameRest underwayAfter divertsAfter
      refine ⟨incoming :: front, lost, back, rfl, accepts, ?_⟩
      rw [Definition.accepting_cons_of_rejects front rejects]
      exact ⟨missing, behind⟩
    | taken _ accepts straight declarations _ =>
      have divertsAfter := diverts.resolve_left straight
      obtain ⟨front, lost, back, rfl, lostAccepts, missing, behind⟩ := ih plainRest sameRest underwayAfter divertsAfter
      refine ⟨incoming :: front, lost, back, rfl, lostAccepts, ?_⟩
      rw [Definition.accepting_cons_of_accepts front accepts]
      rw [declarations] at missing behind
      exact ⟨missing, behind⟩

end Inheritance
end MapStyle
