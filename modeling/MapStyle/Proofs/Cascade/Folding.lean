import MapStyle.Proofs.Cascade.Origin
import MapStyle.Proofs.Filter.Conjunction
/-!
Folding. What is dropped is covered by a definition that stays, so that each feature finds the definition that it found
before; and of those that stay none covers a later one, so that there is nothing to fold again.
-/
namespace MapStyle.Style

theorem foldFrom_sublist (kept definitions : List Definition) : (foldFrom kept definitions).Sublist definitions := by
  induction definitions generalizing kept with
  | nil => exact List.Sublist.refl _
  | cons definition rest ih =>
    rw [foldFrom]
    split
    · exact (ih kept).cons definition
    · exact (ih _).cons_cons definition

theorem foldFrom_uncovered {kept definitions : List Definition} {definition earlier : Definition}
    (stays : definition ∈ foldFrom kept definitions) (isKept : earlier ∈ kept) : covers earlier definition = false := by
  induction definitions generalizing kept with
  | nil => simp [foldFrom] at stays
  | cons head rest ih =>
    rw [foldFrom] at stays
    split at stays
    · exact ih stays isKept
    · rename_i uncovered
      rcases List.mem_cons.mp stays with rfl | inRest
      · exact eq_false_of_ne_true fun covered => uncovered (List.any_eq_true.mpr ⟨earlier, isKept, covered⟩)
      · exact ih inRest (List.mem_append_left _ isKept)

theorem foldFrom_pairwise (kept definitions : List Definition) :
    (foldFrom kept definitions).Pairwise fun earlier later => covers earlier later = false := by
  induction definitions generalizing kept with
  | nil => exact List.Pairwise.nil
  | cons definition rest ih =>
    rw [foldFrom]
    split
    · exact ih kept
    · exact List.Pairwise.cons (fun later stays => foldFrom_uncovered stays (by simp)) (ih _)

theorem foldFrom_eq_self {kept definitions : List Definition}
    (uncovered : (kept ++ definitions).Pairwise fun earlier later => covers earlier later = false) :
    foldFrom kept definitions = definitions := by
  induction definitions generalizing kept with
  | nil => rfl
  | cons definition rest ih =>
    have fromKept : ∀ earlier ∈ kept, covers earlier definition = false :=
      fun earlier isKept => (List.pairwise_append.mp uncovered).2.2 earlier isKept definition List.mem_cons_self
    rw [foldFrom, if_neg, ih]
    · rwa [List.append_assoc, List.singleton_append]
    · intro covered
      obtain ⟨earlier, isKept, covers⟩ := List.any_eq_true.mp covered
      simp [fromKept earlier isKept] at covers

section leader
variable {accepts : Definition → Bool} {kept definitions : List Definition}

theorem find?_foldFrom (rejecting : ∀ earlier ∈ kept, accepts earlier = false)
    (sound : ∀ earlier ∈ kept ++ definitions, ∀ later ∈ definitions, covers earlier later → accepts later → accepts earlier) :
    (foldFrom kept definitions).find? accepts = definitions.find? accepts := by
  induction definitions generalizing kept with
  | nil => rfl
  | cons definition rest ih =>
    have soundRest : ∀ earlier ∈ kept ++ rest, ∀ later ∈ rest, covers earlier later → accepts later → accepts earlier :=
      fun earlier isEarlier later isLater =>
        sound earlier (by simp at isEarlier ⊢; tauto) later (List.mem_cons_of_mem _ isLater)
    rw [foldFrom]
    split
    · rename_i covered
      obtain ⟨earlier, isKept, covers⟩ := List.any_eq_true.mp covered
      -- one that is kept and covers the dropped one rejects the feature, so that it was not the first to accept
      have rejected : accepts definition = false := by
        apply eq_false_of_ne_true
        intro accepted
        have acceptedEarlier := sound earlier (by simp [isKept]) definition List.mem_cons_self covers accepted
        simp [rejecting earlier isKept] at acceptedEarlier
      rw [List.find?_cons, rejected]
      exact ih rejecting soundRest
    · rw [List.find?_cons, List.find?_cons]
      cases accepted : accepts definition with
      | true => rfl
      | false =>
        refine ih (fun earlier isEarlier => ?_) fun earlier isEarlier later isLater =>
          sound earlier (by simp at isEarlier ⊢; tauto) later (List.mem_cons_of_mem _ isLater)
        rcases List.mem_append.mp isEarlier with isKept | isLast
        · exact rejecting earlier isKept
        · rwa [List.mem_singleton.mp isLast]

end leader

open Classical in
/-- The definition that a feature finds: the first that accepts it. -/
noncomputable def leader? (style : Style) (feature : Feature) : Option Definition :=
  style.definitions.find? fun definition => definition.filters.accepts feature

variable {values : Set String} (one : OneText values)
include one

theorem accepts_of_covers {feature : Feature} {earlier later : Definition} (earlierCompares : earlier.filters.Compares values)
    (laterCompares : later.filters.Compares values) (covered : covers earlier later)
    (accepted : later.filters.accepts feature) : earlier.filters.accepts feature := by
  cases outcome : later.filters.merge earlier.filters with
  | unchanged => exact FilterSet.merge_unchanged one laterCompares earlierCompares outcome accepted
  | merged filters => simp [covers, FilterSet.implies, outcome] at covered
  | conflict => simp [covers, FilterSet.implies, outcome] at covered

theorem leader?_fold {style : Style} (compares : ∀ definition ∈ style.definitions, definition.filters.Compares values)
    (mode : FilterMode) (feature : Feature) : (style.fold mode).leader? feature = style.leader? feature := by
  cases mode with
  | all => rfl
  | first =>
    apply find?_foldFrom
    · simp
    · intro earlier isEarlier later isLater covered accepted
      simp only [decide_eq_true_eq] at accepted ⊢
      exact accepts_of_covers one (compares earlier isEarlier) (compares later isLater) covered accepted

theorem mem_fold {feature : Feature} {style : Style} {mode : FilterMode} {leader : Definition}
    (compares : ∀ definition ∈ style.definitions, definition.filters.Compares values)
    (leads : style.leader? feature = some leader) : leader ∈ (style.fold mode).definitions := by
  rw [← leader?_fold one compares mode] at leads
  exact List.mem_of_find?_eq_some leads

/-- Where only the first that fits draws, folding keeps the order of definitions and what each feature finds; it drops all
that an earlier one is known to cover, so that nothing is dropped a second time. -/
theorem fold_first {style : Style} (compares : ∀ definition ∈ style.definitions, definition.filters.Compares values) :
    (style.fold .first).definitions.Sublist style.definitions ∧
      (∀ feature, (style.fold .first).leader? feature = style.leader? feature) ∧
      ((style.fold .first).definitions.Pairwise fun earlier later => later.filters.merge earlier.filters ≠ .unchanged) ∧
      (style.fold .first).definitions.length + style.dropped .first = style.definitions.length ∧
      (style.fold .first).fold .first = style.fold .first ∧ (style.fold .first).dropped .first = 0 := by
  have sublist : (style.fold .first).definitions.Sublist style.definitions := foldFrom_sublist [] style.definitions
  have uncovered : (style.fold .first).definitions.Pairwise fun earlier later => covers earlier later = false :=
    foldFrom_pairwise [] style.definitions
  have again : (style.fold .first).fold .first = style.fold .first :=
    congrArg (fun definitions => { style with definitions }) (@foldFrom_eq_self [] _ uncovered)
  refine ⟨sublist, leader?_fold one compares .first, ?_, Nat.add_sub_cancel' sublist.length_le, again, ?_⟩
  · apply uncovered.imp
    intro earlier later uncovered unchanged
    simp [covers, FilterSet.implies, unchanged] at uncovered
  · rw [dropped, again, Nat.sub_self]

omit one

def lanes : Style := ⟨defaultAttachment,
  [declaring [.ofText "lanes" .atLeast "6"] "line-width" 0, declaring [.ofText "lanes" .greater "6"] "line-color" 1,
    declaring FilterSet.lessThanSix "line-cap" 2, declaring [.ofText "lanes" .equal "2"] "line-join" 3,
    declaring FilterSet.moreThanTwo "line-opacity" 4]⟩

theorem lanes_compares : ∀ definition ∈ lanes.definitions, definition.filters.Compares {"2", "6"} := by
  have plain : ∀ definition ∈ lanes.definitions, ∀ filter ∈ definition.filters.filters,
      Filter.isPattern filter.op = false ∧ filter.key.toList.all (fun c => !Filter.isOperatorChar c) ∧
        (filter.value = "2" ∨ filter.value = "6") := by decide +kernel
  intro definition isPart filter inside
  obtain ⟨notPattern, plainKey, value⟩ := plain definition isPart filter inside
  exact ⟨notPattern, by simpa using plainKey, value⟩

theorem fold_first_lanes : (∀ definition ∈ lanes.definitions, definition.filters.Compares {"2", "6"}) ∧
    lanes.dropped .first = 1 ∧ (lanes.fold .first).definitions.Sublist lanes.definitions ∧
    (∀ feature, (lanes.fold .first).leader? feature = lanes.leader? feature) ∧
    ((lanes.fold .first).definitions.Pairwise fun earlier later => later.filters.merge earlier.filters ≠ .unchanged) ∧
    (lanes.fold .first).definitions.length + 1 = 5 ∧
    (lanes.fold .first).fold .first = lanes.fold .first ∧ (lanes.fold .first).dropped .first = 0 := by
  have one : lanes.dropped .first = 1 := by decide +kernel
  obtain ⟨inOrder, leader, uncovered, counted, again, nothing⟩ := fold_first FilterSet.oneText_lanes lanes_compares
  rw [one] at counted
  exact ⟨lanes_compares, one, inOrder, leader, uncovered, counted, again, nothing⟩

end MapStyle.Style
