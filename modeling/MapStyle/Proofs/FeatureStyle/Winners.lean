import MapStyle.FeatureStyle.Slice
import MapStyle.Proofs.Cascade.Declarations
/-!
What a level draws: of the declarations for symbolizers that are visible there, the first of each instance and
property, grouped by instance and kind. Collecting a slice finds these for all its levels at once.
-/
namespace MapStyle

section winners
variable (target : String → Option Target)

namespace Declaration

def owner? (declaration : Declaration) : Option (String × Kind) :=
  match target declaration.property with
  | some (.symbolizer kind) => some (declaration.instanceName, kind)
  | _ => none

def drawsAt (level : Nat) (declaration : Declaration) : Bool :=
  (declaration.owner? target).isSome && declaration.zoom.contains level

/-- Whether two declarations set one property of one instance; they are for the same kind then. -/
def rivals (a b : Declaration) : Bool := a.instanceName == b.instanceName && a.property == b.property

def keepFirst (kept : List Declaration) (next : Declaration) : List Declaration :=
  if kept.any next.rivals then kept else kept ++ [next]

/-- The first declaration of each instance and property among those that draw at a level. -/
def winners (level : Nat) (declarations : List Declaration) : List Declaration :=
  (declarations.filter (drawsAt target level)).foldl keepFirst []

end Declaration

/-- Declarations by the instance and kind that they are for, in the order in which these first occur. -/
def Group.gather (declarations : List Declaration) : List Group :=
  (declarations.filterMap (Declaration.owner? target)).eraseDups.map fun owner =>
    ⟨owner.1, owner.2, declarations.filter fun declaration => declaration.owner? target == some owner⟩

def Group.drawnAt (level : Nat) (declarations : List Declaration) : List Group :=
  gather target (Declaration.winners target level declarations)

end winners

variable {target : String → Option Target}

namespace Declaration

theorem rivals_iff {a b : Declaration} : a.rivals b ↔ a.instanceName = b.instanceName ∧ a.property = b.property := by
  simp [rivals]

theorem owner?_eq_some {declaration : Declaration} {owner : String × Kind} : declaration.owner? target = some owner ↔
    target declaration.property = some (.symbolizer owner.2) ∧ declaration.instanceName = owner.1 := by
  obtain ⟨name, kind⟩ := owner
  unfold owner?
  split
  · rename_i found same
    simp [same, and_comm]
  · rename_i other
    simp only [reduceCtorEq, false_iff, not_and]
    exact fun same => absurd same (other kind)

theorem rivals_comm {a b : Declaration} : a.rivals b ↔ b.rivals a := by
  rw [rivals_iff, rivals_iff, eq_comm, @eq_comm _ a.property]

theorem rivals_trans {a b c : Declaration} (first : a.rivals b) (second : b.rivals c) : a.rivals c := by
  obtain ⟨sameInstance, sameProperty⟩ := rivals_iff.mp first
  obtain ⟨sameInstance', sameProperty'⟩ := rivals_iff.mp second
  exact rivals_iff.mpr ⟨sameInstance.trans sameInstance', sameProperty.trans sameProperty'⟩

instance : Std.Symm fun a b : Declaration => ¬ a.rivals b where
  symm _ _ apart same := apart (rivals_comm.mp same)

theorem owner?_of_rivals {a b : Declaration} (rival : a.rivals b) : a.owner? target = b.owner? target := by
  obtain ⟨sameInstance, sameProperty⟩ := rivals_iff.mp rival
  simp only [owner?, sameInstance, sameProperty]

section walk
variable {level : Nat} {next : Declaration} {rest : List Declaration}

theorem winners_append {front back : List Declaration} : winners target level (front ++ back) =
    (back.filter (drawsAt target level)).foldl keepFirst (winners target level front) := by
  rw [winners, List.filter_append, List.foldl_append]
  rfl

theorem winners_cons_of_hidden (hidden : next.drawsAt target level = false) :
    winners target level (next :: rest) = winners target level rest := by
  rw [winners, List.filter_cons_of_neg (by simp [hidden])]
  rfl

theorem foldl_keepFirst_prefix (kept more : List Declaration) : kept <+: more.foldl keepFirst kept := by
  induction more generalizing kept with
  | nil => exact List.prefix_rfl
  | cons next rest ih =>
    refine List.IsPrefix.trans ?_ (ih _)
    unfold keepFirst
    split
    · exact List.prefix_rfl
    · exact List.prefix_append kept [next]

section keepFirst
variable {kept more : List Declaration} {declaration : Declaration}

theorem mem_foldl_keepFirst (member : declaration ∈ more.foldl keepFirst kept) :
    declaration ∈ kept ∨ declaration ∈ more ∧ kept.any declaration.rivals = false := by
  induction more generalizing kept with
  | nil => exact .inl member
  | cons next rest ih =>
    rcases ih member with here | ⟨inRest, alone⟩ <;> unfold keepFirst at * <;> split at *
    · exact .inl here
    · rename_i unbeaten
      rcases List.mem_append.mp here with isKept | isNext
      · exact .inl isKept
      · obtain rfl := List.mem_singleton.mp isNext
        exact .inr ⟨List.mem_cons_self, by simpa using unbeaten⟩
    · exact .inr ⟨List.mem_cons_of_mem _ inRest, alone⟩
    · rw [List.any_append, Bool.or_eq_false_iff] at alone
      exact .inr ⟨List.mem_cons_of_mem _ inRest, alone.1⟩

theorem mem_of_mem_kept (member : declaration ∈ more.foldl keepFirst []) : declaration ∈ more :=
  (mem_foldl_keepFirst member).elim (fun inNil => absurd inNil List.not_mem_nil) And.left

theorem foldl_keepFirst_apart (apart : kept.Pairwise fun a b => ¬ a.rivals b) :
    (more.foldl keepFirst kept).Pairwise fun a b => ¬ a.rivals b := by
  induction more generalizing kept with
  | nil => exact apart
  | cons next rest ih =>
    refine ih ?_
    unfold keepFirst
    split
    · exact apart
    · rename_i unbeaten
      refine List.pairwise_append.mpr ⟨apart, List.pairwise_singleton _ _, fun a isKept b isNext same => unbeaten ?_⟩
      obtain rfl := List.mem_singleton.mp isNext
      exact List.any_eq_true.mpr ⟨a, isKept, rivals_comm.mp same⟩

end keepFirst

theorem winners_eq_nil {declarations : List Declaration} :
    winners target level declarations = [] ↔ declarations.filter (drawsAt target level) = [] := by
  unfold winners
  cases declarations.filter (drawsAt target level) with
  | nil => simp
  | cons first others =>
    obtain ⟨more, same⟩ := foldl_keepFirst_prefix [first] others
    have kept : (first :: others).foldl keepFirst [] = [first] ++ more := same.symm
    simp [kept]

theorem winners_draw {declarations : List Declaration} :
    ∀ winner ∈ winners target level declarations, winner.drawsAt target level := by
  have kept : ∀ (more known : List Declaration), (∀ winner ∈ known, winner.drawsAt target level) →
      (∀ next ∈ more, next.drawsAt target level) → ∀ winner ∈ more.foldl keepFirst known, winner.drawsAt target level := by
    intro more
    induction more with
    | nil => exact fun known draw _ => draw
    | cons next rest ih =>
      intro known draw drawMore
      refine ih _ ?_ fun other inRest => drawMore other (List.mem_cons_of_mem _ inRest)
      unfold keepFirst
      split
      · exact draw
      · exact List.forall_mem_append.mpr ⟨draw, List.forall_mem_singleton.mpr (drawMore next List.mem_cons_self)⟩
  exact kept _ [] (by simp) fun next member => (List.mem_filter.mp member).2

end walk

end Declaration

namespace Group
open Declaration

/-- Adding to groups with different owners: the group of the owner takes the declaration, or a new one. -/
theorem add?_map {owners : List (String × Kind)} (apart : owners.Nodup) (next : Declaration) (kind : Kind)
    (held : String × Kind → List Declaration) :
    add? next kind (owners.map fun owner => ⟨owner.1, owner.2, held owner⟩) =
      if (next.instanceName, kind) ∈ owners then
        if (held (next.instanceName, kind)).any (fun other => other.property == next.property) then none
        else some (owners.map fun owner =>
          ⟨owner.1, owner.2, if owner = (next.instanceName, kind) then held owner ++ [next] else held owner⟩)
      else some ((owners.map fun owner => ⟨owner.1, owner.2, held owner⟩) ++ [⟨next.instanceName, kind, [next]⟩]) := by
  induction owners with
  | nil => rfl
  | cons owner rest ih =>
    obtain ⟨absent, apartRest⟩ := List.nodup_cons.mp apart
    rw [List.map_cons, add?]
    by_cases same : owner = (next.instanceName, kind)
    · subst same
      have others : rest.map (fun owner => (⟨owner.1, owner.2, if owner = (next.instanceName, kind) then held owner ++ [next]
          else held owner⟩ : Group)) = rest.map fun owner => ⟨owner.1, owner.2, held owner⟩ :=
        List.map_congr_left fun other inRest => by rw [if_neg (ne_of_mem_of_not_mem inRest absent)]
      simp [isFor, has, push, others]
    · have notFor : isFor next kind ⟨owner.1, owner.2, held owner⟩ = false := by
        obtain ⟨name, ownKind⟩ := owner
        simpa [isFor] using same
      rw [notFor, ih apartRest]
      by_cases inRest : (next.instanceName, kind) ∈ rest
      · by_cases taken : (held (next.instanceName, kind)).any fun other => other.property == next.property <;>
          simp [inRest, taken, same]
      · simp [inRest, Ne.symm same]

section appended
variable {kept : List Declaration} {next : Declaration} {owner : String × Kind} (isFor : next.owner? target = some owner)
include isFor

theorem filter_append_other {other : String × Kind} (different : other ≠ owner) :
    (kept ++ [next]).filter (fun declaration => declaration.owner? target == some other) =
      kept.filter fun declaration => declaration.owner? target == some other := by
  have notNext : (next.owner? target == some other) = false := by simpa [isFor] using Ne.symm different
  simp [List.filter_append, notNext]

theorem gather_append_known (known : owner ∈ kept.filterMap (owner? target)) :
    gather target (kept ++ [next]) = (kept.filterMap (owner? target)).eraseDups.map fun other =>
      ⟨other.1, other.2, if other = owner then kept.filter (fun declaration => declaration.owner? target == some other) ++ [next]
        else kept.filter fun declaration => declaration.owner? target == some other⟩ := by
  rw [gather, List.filterMap_append, List.eraseDups_append]
  simp only [List.filterMap_cons, isFor, List.filterMap_nil, List.removeAll, List.elem_eq_mem, known, decide_true,
    Bool.not_true, Bool.false_eq_true, not_false_eq_true, List.filter_cons_of_neg, List.filter_nil, List.eraseDups_nil,
    List.append_nil]
  refine List.map_congr_left fun other _ => ?_
  by_cases own : other = owner
  · simp [own, List.filter_append, isFor]
  · rw [if_neg own, filter_append_other isFor own]

theorem gather_append_new (new : owner ∉ kept.filterMap (owner? target)) :
    gather target (kept ++ [next]) = gather target kept ++ [⟨owner.1, owner.2, [next]⟩] := by
  have noneYet : kept.filter (fun declaration => declaration.owner? target == some owner) = [] := by
    refine List.filter_eq_nil_iff.mpr fun other inside owned => new ?_
    exact List.mem_filterMap.mpr ⟨other, inside, by simpa using owned⟩
  rw [gather, gather, List.filterMap_append, List.eraseDups_append]
  simp only [List.filterMap_cons, isFor, List.filterMap_nil, List.removeAll, List.elem_eq_mem, new, decide_false,
    Bool.not_false, List.filter_cons_of_pos, List.filter_nil, List.eraseDups_cons, List.eraseDups_nil, List.map_append,
    List.map_cons, List.map_nil]
  congr 1
  · refine List.map_congr_left fun other member => ?_
    rw [filter_append_other isFor (ne_of_mem_of_not_mem (List.mem_eraseDups.mp member) new)]
  · simp [List.filter_append, noneYet, isFor]

end appended

theorem rivals_iff_owned {next other : Declaration} {kind : Kind} (isFor : next.owner? target = some (next.instanceName, kind)) :
    next.rivals other ↔ other.owner? target = some (next.instanceName, kind) ∧ other.property = next.property := by
  constructor
  · intro same
    exact ⟨(owner?_of_rivals same).symm.trans isFor, (rivals_iff.mp same).2.symm⟩
  · rintro ⟨owned, sameProperty⟩
    exact rivals_iff.mpr ⟨(owner?_eq_some.mp owned).2.symm, sameProperty.symm⟩

/-- Adding a declaration to the groups of others fails where it has a rival, and gathers it with them where not. -/
theorem add?_gather {kept : List Declaration} {next : Declaration} {kind : Kind}
    (isFor : next.owner? target = some (next.instanceName, kind)) :
    add? next kind (gather target kept) = if kept.any next.rivals then none else some (gather target (kept ++ [next])) := by
  have taken : (kept.filter fun other => other.owner? target == some (next.instanceName, kind)).any
      (fun other => other.property == next.property) = kept.any next.rivals := by
    rw [List.any_filter]
    refine congrArg kept.any (funext fun other => Bool.eq_iff_iff.mpr ?_)
    simp only [Bool.and_eq_true, beq_iff_eq, rivals_iff_owned isFor]
  rw [gather, add?_map (nodup_eraseDups _) next kind fun owner =>
    kept.filter fun declaration => declaration.owner? target == some owner, taken]
  by_cases known : (next.instanceName, kind) ∈ kept.filterMap (owner? target)
  · rw [if_pos (List.mem_eraseDups.mpr known), gather_append_known isFor known]
  · have unrivaled : kept.any next.rivals = false := by
      refine List.any_eq_false.mpr fun other inside isRival => known ?_
      exact List.mem_filterMap.mpr ⟨other, inside, ((rivals_iff_owned isFor).mp isRival).1⟩
    rw [if_neg fun member => known (List.mem_eraseDups.mp member), unrivaled, if_neg Bool.false_ne_true,
      gather_append_new isFor known]
    rfl

theorem gather_eq_nil {kept : List Declaration} (owned : ∀ declaration ∈ kept, (declaration.owner? target).isSome) :
    gather target kept = [] ↔ kept = [] := by
  cases kept with
  | nil => simp [gather]
  | cons first rest =>
    obtain ⟨owner, isOwner⟩ := Option.isSome_iff_exists.mp (owned first List.mem_cons_self)
    simp [gather, isOwner, List.eraseDups_cons]

theorem drawnAt_cons_of_hidden {level : Nat} {next : Declaration} {rest : List Declaration}
    (hidden : next.drawsAt target level = false) : drawnAt target level (next :: rest) = drawnAt target level rest := by
  rw [drawnAt, winners_cons_of_hidden hidden]
  rfl

theorem drawnAt_eq_nil {level : Nat} {declarations : List Declaration} :
    Group.drawnAt target level declarations = [] ↔ declarations.filter (drawsAt target level) = [] := by
  refine Iff.trans (gather_eq_nil fun winner member => ?_) winners_eq_nil
  exact (Bool.and_eq_true_iff.mp (winners_draw winner member)).1

end Group
end MapStyle
