import MapStyle.Proofs.FeatureStyle.Winners
/-!
The slices of a definition. Cutting is greedy and narrows a slice while it collects, yet each level that is left gets
one slice, with just the groups that it draws.
-/
namespace MapStyle

theorem Zoom.intersects_iff {a b : Zoom} : a.intersects b ↔ ∃ level, a.contains level ∧ b.contains level := by
  unfold Zoom.intersects
  rw [Bool.not_eq_true', Zoom.isEmpty_eq_false_iff]
  simp

theorem Zoom.contains_inter_iff {a b : Zoom} {level : Nat} :
    (a.inter b).contains level ↔ a.contains level ∧ b.contains level := by simp

namespace Slice
open Declaration MapStyle.Group

variable {target : String → Option Target} {lead : Declaration} {rest declarations : List Declaration}
  {levels remaining available : Zoom} {level : Nat}

section collect
variable {kept : List Declaration}

theorem collect_hidden (hidden : lead.owner? target = none) {groups : List Group} :
    collect target groups levels (lead :: rest) = collect target groups levels rest := by
  rw [collect]
  split
  · rename_i kind same
    have isOwner : lead.owner? target = some (lead.instanceName, kind) := owner?_eq_some.mpr ⟨same, rfl⟩
    simp [isOwner] at hidden
  · rfl

theorem collect_owned (owned : (lead.owner? target).isSome) :
    collect target (gather target kept) levels (lead :: rest) =
      if levels.intersects lead.zoom ∧ kept.any lead.rivals = false then
        collect target (gather target (kept ++ [lead])) (levels.inter lead.zoom) rest
      else collect target (gather target kept) levels rest := by
  obtain ⟨⟨name, kind⟩, isOwner⟩ := Option.isSome_iff_exists.mp owned
  obtain ⟨same, rfl⟩ := owner?_eq_some.mp isOwner
  rw [collect]
  simp only [same, add?_gather isOwner]
  by_cases shared : levels.intersects lead.zoom <;> by_cases rival : kept.any lead.rivals <;> simp [shared, rival]

theorem collect_groups (inside : (collect target (gather target kept) levels declarations).2.contains level) :
    (collect target (gather target kept) levels declarations).1 =
      gather target ((declarations.filter (drawsAt target level)).foldl keepFirst kept) := by
  induction declarations generalizing kept levels with
  | nil => rfl
  | cons next rest ih =>
    by_cases owned : (next.owner? target).isSome
    · rw [collect_owned owned] at inside ⊢
      by_cases visible : next.zoom.contains level
      · have draws : next.drawsAt target level := by simp [drawsAt, owned, visible]
        rw [List.filter_cons_of_pos draws, List.foldl_cons, keepFirst]
        by_cases rival : kept.any next.rivals
        · simp only [rival, Bool.true_eq_false, and_false, if_false, if_true] at inside ⊢
          exact ih inside
        · -- the level is left, so that what is collected from so far shares it with `next`
          have left : levels.contains level := by
            split at inside
            · simpa [visible] using collect_subset _ _ _ _ _ inside
            · exact collect_subset _ _ _ _ _ inside
          have shared : levels.intersects next.zoom := Zoom.intersects_iff.mpr ⟨level, left, visible⟩
          simp only [shared, eq_false_of_ne_true rival, and_self, if_true, if_false, Bool.false_eq_true] at inside ⊢
          exact ih inside
      · have hidden : ¬ next.drawsAt target level := by simp [drawsAt, visible]
        rw [List.filter_cons_of_neg hidden]
        split at inside
        · exact absurd (collect_subset _ _ _ _ _ inside) (by simp [visible])
        · rename_i passed
          rw [if_neg passed]
          exact ih inside
    · have unowned : next.owner? target = none := by simpa using owned
      have hidden : ¬ next.drawsAt target level := by simp [drawsAt, unowned]
      rw [collect_hidden unowned] at inside ⊢
      rw [List.filter_cons_of_neg hidden]
      exact ih inside

theorem collect_ne_nil (owned : (lead.owner? target).isSome) (inside : ∀ level, levels.contains level → lead.zoom.contains level)
    (nonempty : levels.isEmpty = false) : (collect target [] levels (lead :: rest)).1 ≠ [] := by
  obtain ⟨level, left⟩ := (Zoom.isEmpty_eq_false_iff _).mp (collect_isEmpty target [] levels (lead :: rest) nonempty)
  have visible : lead.zoom.contains level := inside level (collect_subset _ _ _ _ _ left)
  have same : (collect target [] levels (lead :: rest)).1 = drawnAt target level (lead :: rest) :=
    @collect_groups _ _ _ _ [] left
  rw [same, Ne, drawnAt_eq_nil]
  simp [drawsAt, owned, visible]

end collect

/-- What slices have for a level: the lead and the groups of each that it is in. -/
def heldAt (level : Nat) (slices : List Slice) : List (Declaration × List Group) :=
  (slices.filter fun slice => slice.levels.contains level).map fun slice => (slice.lead, slice.groups)

@[simp] theorem heldAt_nil : heldAt level [] = [] := rfl

theorem heldAt_cons (slice : Slice) (slices : List Slice) : heldAt level (slice :: slices) =
    if slice.levels.contains level then (slice.lead, slice.groups) :: heldAt level slices else heldAt level slices := by
  by_cases inside : slice.levels.contains level <;> simp [heldAt, inside]

theorem heldAt_append (front back : List Slice) : heldAt level (front ++ back) = heldAt level front ++ heldAt level back := by
  simp [heldAt]

theorem heldAt_eq_nil {slices : List Slice} :
    heldAt level slices = [] ↔ ∀ slice ∈ slices, ¬ slice.levels.contains level := by
  simp [heldAt]

/-- The slices taken for a declaration have each of its levels that is available, and take it away. -/
theorem take_spec (owned : (lead.owner? target).isSome) :
    heldAt level (take target lead (lead :: rest) lead.zoom available).1 =
      (if lead.zoom.contains level ∧ available.contains level then [(lead, drawnAt target level (lead :: rest))] else []) ∧
    (take target lead (lead :: rest) lead.zoom available).2.contains level =
      (available.contains level && !lead.zoom.contains level) := by
  fun_induction take target lead (lead :: rest) lead.zoom available with
  | case1 available empty =>
    have unheld := (Zoom.isEmpty_iff _).mp empty level
    rw [Zoom.contains_inter] at unheld
    rw [if_neg fun both => by simp [both.1, both.2] at unheld]
    refine ⟨rfl, ?_⟩
    cases seen : available.contains level <;> simp_all
  | case2 available nonempty found groupless =>
    -- a slice that is taken for its lead has a group at least
    refine absurd (List.isEmpty_iff.mp groupless) (collect_ne_nil owned (fun level inside => ?_) (by simpa using nonempty))
    exact (Zoom.contains_inter_iff.mp inside).1
  | case3 available nonempty found _ others ih =>
    have within : found.2.contains level → lead.zoom.contains level ∧ available.contains level := by
      intro inside
      simpa using collect_subset _ _ _ _ _ inside
    rw [Zoom.contains_diff] at ih
    -- the slice takes its levels away, so that none of the others has them again
    by_cases inside : found.2.contains level
    · obtain ⟨visible, isAvailable⟩ := within inside
      have groups : found.1 = drawnAt target level (lead :: rest) := @collect_groups _ _ _ _ [] inside
      have held : heldAt level others.1 = [] := by simpa [inside] using ih.1
      have left : others.2.contains level = false := by simpa [inside] using ih.2
      refine ⟨?_, by simp [left, visible]⟩
      rw [heldAt_cons, if_pos inside, if_pos ⟨visible, isAvailable⟩, held, groups]
    · rw [eq_false_of_ne_true inside, Bool.not_false, Bool.and_true] at ih
      refine ⟨?_, ih.2⟩
      rw [heldAt_cons, if_neg inside]
      exact ih.1

theorem take_subset (wanted : Zoom) : ∀ slice ∈ (take target lead declarations wanted available).1,
    slice.levels.contains level → available.contains level := by
  fun_induction take target lead declarations wanted available with
  | case1 => simp
  | case2 => simp
  | case3 available nonempty found _ others ih =>
    refine List.forall_mem_cons.mpr ⟨fun inside => ?_, fun slice inOthers inside => ?_⟩
    · exact (Zoom.contains_inter_iff.mp (collect_subset _ _ _ _ _ inside)).2
    · exact (Bool.and_eq_true_iff.mp ((Zoom.contains_diff _ _ _).symm.trans (ih slice inOthers inside))).1

theorem take_available (wanted : Zoom) (inside : (take target lead declarations wanted available).2.contains level) :
    available.contains level := by
  fun_induction take target lead declarations wanted available with
  | case1 => exact inside
  | case2 => exact inside
  | case3 available nonempty found _ others ih =>
    exact (Bool.and_eq_true_iff.mp ((Zoom.contains_diff _ _ _).symm.trans (ih inside))).1

theorem cut_subset : ∀ slice ∈ cut target remaining available declarations,
    slice.levels.contains level → available.contains level := by
  fun_induction cut target remaining available declarations with
  | case1 => simp
  | case2 remaining available lead rest _ ih => exact ih
  | case3 remaining available lead rest _ taken ih =>
    refine List.forall_mem_append.mpr ⟨take_subset _, fun slice inRest inside => ?_⟩
    exact take_available _ (ih slice inRest inside)

theorem contains_foldl_diff (slices : List Slice) : (slices.foldl (fun left slice => left.diff slice.levels) remaining).contains level =
    (remaining.contains level && (heldAt level slices).isEmpty) := by
  induction slices generalizing remaining with
  | nil => simp
  | cons slice rest ih =>
    rw [List.foldl_cons, ih, Zoom.contains_diff, heldAt_cons]
    by_cases inside : slice.levels.contains level <;> simp [inside]

theorem owned_of_known (known : (target lead.property).isSome) (symbolizes : target lead.property ≠ some .style) :
    (lead.owner? target).isSome := by
  obtain ⟨goal, isTarget⟩ := Option.isSome_iff_exists.mp known
  cases goal with
  | style => exact absurd isTarget symbolizes
  | symbolizer kind => simp [owner?, isTarget]

/-- What a level has to draw: the first declaration for a symbolizer that is visible there, and the groups of all. -/
def due? (target : String → Option Target) (level : Nat) (declarations : List Declaration) :
    Option (Declaration × List Group) :=
  (declarations.find? (drawsAt target level)).map fun lead => (lead, drawnAt target level declarations)

theorem due?_cons_of_hidden (hidden : lead.drawsAt target level = false) :
    due? target level (lead :: rest) = due? target level rest := by
  rw [due?, List.find?_cons_of_neg (by simp [hidden]), drawnAt_cons_of_hidden hidden]
  rfl

/-- A level that is left and available is in one slice, with what it has to draw, or in none if that is nothing. -/
theorem cut_heldAt (known : ∀ declaration ∈ declarations, (target declaration.property).isSome)
    (isLeft : remaining.contains level) (isAvailable : available.contains level) :
    heldAt level (cut target remaining available declarations) = (due? target level declarations).toList := by
  fun_induction cut target remaining available declarations with
  | case1 => rfl
  | case2 remaining available lead rest passed ih =>
    have hidden : lead.drawsAt target level = false := by
      rcases (Bool.or_eq_true_iff.mp passed) with isStyle | unseen
      · have unowned : lead.owner? target = none := by simp [owner?, of_decide_eq_true isStyle]
        simp [drawsAt, unowned]
      · have : ¬ lead.zoom.contains level := fun visible => by
          simp [Zoom.intersects_iff.mpr ⟨level, isLeft, visible⟩] at unseen
        simp [drawsAt, this]
    rw [ih (fun other inRest => known other (List.mem_cons_of_mem _ inRest)) isLeft isAvailable,
      due?_cons_of_hidden hidden]
  | case3 remaining available lead rest passed taken ih =>
    have owned : (lead.owner? target).isSome :=
      owned_of_known (known lead List.mem_cons_self) fun isStyle => passed (by simp [isStyle])
    have spec : heldAt level taken.1 = _ ∧ taken.2.contains level = _ := take_spec owned
    rw [heldAt_append, spec.1]
    by_cases visible : lead.zoom.contains level
    · -- the level is taken with `lead`, and no longer available for what follows
      have draws : lead.drawsAt target level := by simp [drawsAt, owned, visible]
      have used : taken.2.contains level = false := by simp [spec.2, visible]
      have others : heldAt level (cut target (taken.1.foldl (fun left slice => left.diff slice.levels) remaining) taken.2 rest) = [] :=
        heldAt_eq_nil.mpr fun slice inRest inside => by simp [cut_subset slice inRest inside] at used
      rw [if_pos ⟨visible, isAvailable⟩, others, due?, List.find?_cons_of_pos draws]
      rfl
    · have hidden : lead.drawsAt target level = false := by simp [drawsAt, visible]
      have stillLeft : (taken.1.foldl (fun left slice => left.diff slice.levels) remaining).contains level := by
        rw [contains_foldl_diff, spec.1]
        simp [isLeft, visible]
      have stillAvailable : taken.2.contains level := by simp [spec.2, isAvailable, visible]
      rw [if_neg fun both => visible both.1, List.nil_append,
        ih (fun other inRest => known other (List.mem_cons_of_mem _ inRest)) stillLeft stillAvailable,
        due?_cons_of_hidden hidden]

end Slice
end MapStyle
