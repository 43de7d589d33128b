import MapStyle.Definition
import Mathlib.Data.List.Induction
import Mathlib.Data.List.Nodup
/-!
Taking over declarations: a list is followed by those of another whose ids it does not have yet.
-/
namespace MapStyle

theorem nodup_eraseDups {α : Type} [BEq α] [LawfulBEq α] (items : List α) : items.eraseDups.Nodup := by
  induction items using List.reverseRecOn with
  | nil => simp
  | append_singleton front last ih =>
    rw [List.eraseDups_append]
    by_cases known : last ∈ front
    · simpa [List.removeAll, known] using ih
    · simpa [List.removeAll, known, ih, List.nodup_append, List.eraseDups_cons] using
        fun other inFront => ne_of_mem_of_not_mem inFront known

namespace Declaration

/-- `known`, followed by each declaration of `more` whose id is not there yet. -/
def joined (known more : List Declaration) : List Declaration :=
  more.foldl (fun known next => if next.id ∈ known.map id then known else known ++ [next]) known

variable {known more : List Declaration}

@[simp] theorem joined_nil : joined known [] = known := rfl

theorem joined_cons (next : Declaration) :
    joined known (next :: more) = joined (if next.id ∈ known.map id then known else known ++ [next]) more := rfl

/-- What is joined goes behind what was there. -/
theorem joined_eq_append (known more : List Declaration) :
    ∃ new, joined known more = known ++ new ∧ ∀ next ∈ new, next ∈ more := by
  induction more generalizing known with
  | nil => exact ⟨[], by simp⟩
  | cons next rest ih =>
    rw [joined_cons]
    split
    · obtain ⟨new, same, inside⟩ := ih known
      exact ⟨new, same, fun r member => List.mem_cons_of_mem _ (inside r member)⟩
    · obtain ⟨new, same, inside⟩ := ih (known ++ [next])
      refine ⟨next :: new, by rw [same, List.append_assoc, List.singleton_append], fun r member => ?_⟩
      exact (List.mem_cons.mp member).elim (fun same => same ▸ List.mem_cons_self)
        fun inNew => List.mem_cons_of_mem _ (inside r inNew)

theorem prefix_joined (known more : List Declaration) : known <+: joined known more := by
  obtain ⟨new, same, -⟩ := joined_eq_append known more
  exact ⟨new, same.symm⟩

theorem mem_joined {next : Declaration} (member : next ∈ joined known more) : next ∈ known ∨ next ∈ more := by
  obtain ⟨new, same, inside⟩ := joined_eq_append known more
  rw [same] at member
  exact (List.mem_append.mp member).imp_right (inside next)

theorem ids_of_prefix {longer : List Declaration} (starts : known <+: longer) {name : String}
    (member : name ∈ known.map id) : name ∈ longer.map id :=
  (starts.map id).subset member

theorem ids_joined {next : Declaration} (member : next ∈ more) : next.id ∈ (joined known more).map id := by
  induction more generalizing known with
  | nil => simp at member
  | cons head rest ih =>
    rw [joined_cons]
    rcases List.mem_cons.mp member with rfl | inside
    · refine ids_of_prefix (prefix_joined _ rest) ?_
      split
      · assumption
      · simp
    · exact ih inside

theorem joined_eq_self (present : ∀ next ∈ more, next.id ∈ known.map id) : joined known more = known := by
  induction more with
  | nil => rfl
  | cons head rest ih =>
    rw [joined_cons, if_pos (present head List.mem_cons_self)]
    exact ih fun next member => present next (List.mem_cons_of_mem _ member)

theorem joined_joined : joined (joined known more) more = joined known more :=
  joined_eq_self fun _ member => ids_joined member

/-- The first declaration with a new id goes right behind what was there. -/
theorem joined_of_new (new : ∃ next ∈ more, next.id ∉ known.map id) :
    ∃ first rest, joined known more = known ++ first :: rest ∧ first ∈ more := by
  obtain ⟨new, same, inside⟩ := joined_eq_append known more
  cases new with
  | nil =>
    obtain ⟨next, member, absent⟩ := new
    have present : next.id ∈ (joined known more).map id := ids_joined member
    rw [same, List.append_nil] at present
    exact absurd present absent
  | cons first rest => exact ⟨first, rest, same, inside first List.mem_cons_self⟩

end Declaration

namespace Definition

theorem declares_iff {definition : Definition} {name : String} :
    definition.declares name ↔ name ∈ definition.declarations.map Declaration.id := by
  simp [declares]

theorem addDeclarations_eq (definition : Definition) (more : List Declaration) : definition.addDeclarations more =
    { definition with declarations := Declaration.joined definition.declarations more } := by
  unfold addDeclarations
  induction more generalizing definition with
  | nil => rfl
  | cons next rest ih =>
    rw [List.foldl_cons, ih, Declaration.joined_cons, addDeclaration]
    by_cases present : definition.declares next.id
    · rw [if_pos present, if_pos (declares_iff.mp present)]
    · rw [if_neg present, if_neg fun member => present (declares_iff.mpr member)]

section fields
variable (definition : Definition) (more : List Declaration)

@[simp] theorem addDeclarations_declarations :
    (definition.addDeclarations more).declarations = Declaration.joined definition.declarations more := by
  rw [addDeclarations_eq]

@[simp] theorem addDeclarations_filters : (definition.addDeclarations more).filters = definition.filters := by
  rw [addDeclarations_eq]

@[simp] theorem addDeclarations_attachment : (definition.addDeclarations more).attachment = definition.attachment := by
  rw [addDeclarations_eq]

end fields

theorem addDeclarations_of_present {definition : Definition} {more : List Declaration}
    (present : ∀ next ∈ more, next.id ∈ definition.declarations.map Declaration.id) :
    definition.addDeclarations more = definition := by
  rw [addDeclarations_eq, Declaration.joined_eq_self present]

end Definition
end MapStyle
