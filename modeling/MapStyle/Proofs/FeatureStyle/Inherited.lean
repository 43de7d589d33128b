import MapStyle.Proofs.Cascade.Unfiltered
import MapStyle.Proofs.Filter.Text
import MapStyle.Proofs.FeatureStyle.Slices
/-!
What inherited declarations draw. A declaration that is not taken over has the id of one before it, and so levels,
instance and property too: at each of its levels that one wins.
-/
namespace MapStyle

namespace Zoom

theorem text_toList (zoom : Zoom) : zoom.text.toList = Nat.toDigits 10 zoom.bits := by
  simp [text]

theorem text_injective {a b : Zoom} (same : a.text = b.text) : a = b := by
  have digits : Nat.toDigits 10 a.bits = Nat.toDigits 10 b.bits := by rw [← text_toList, ← text_toList, same]
  have bits := congrArg (fun digits => Nat.ofDigitChars 10 digits 0) digits
  simp only [Nat.ofDigitChars_toDigits (by decide : 1 < 10) (Nat.le_refl 10)] at bits
  cases a
  cases b
  exact congrArg Zoom.mk (BitVec.eq_of_toNat_eq bits)

end Zoom

namespace Declaration

theorem id_toList (declaration : Declaration) : declaration.id.toList =
    declaration.zoom.text.toList ++ '#' :: (declaration.instanceName.toList ++ '#' :: declaration.property.toList) := by
  simp [id]

/-- One id tells the levels, and of two names of properties that it could stand for one ends in a separator and the
other. -/
theorem id_cases {a b : Declaration} (same : a.id = b.id) : a.zoom = b.zoom ∧
    ((a.instanceName = b.instanceName ∧ a.property = b.property) ∨
      (∃ front, a.property.toList = front ++ '#' :: b.property.toList) ∨
      ∃ front, b.property.toList = front ++ '#' :: a.property.toList) := by
  have digits : ∀ zoom : Zoom, ∀ c ∈ zoom.text.toList, (c == '#') = false := by
    intro zoom c inside
    rw [Zoom.text_toList] at inside
    have isDigit := Nat.isDigit_of_mem_toDigits (by decide) (Nat.le_refl 10) inside
    exact beq_eq_false_iff_ne.mpr fun isHash => by simp [isHash] at isDigit
  have lists : a.id.toList = b.id.toList := congrArg String.toList same
  rw [id_toList, id_toList] at lists
  obtain ⟨sameZoom, -, sameRest⟩ := append_cons_injective (p := (· == '#')) (digits _) (digits _) rfl rfl lists
  refine ⟨Zoom.text_injective (String.toList_inj.mp sameZoom), ?_⟩
  -- an instance may hold separators, so that the names need not begin at one place
  rcases List.append_eq_append_iff.mp sameRest with ⟨between, longer, rest⟩ | ⟨between, longer, rest⟩
  · cases between with
    | nil => exact Or.inl ⟨String.toList_inj.mp (by simpa using longer.symm), String.toList_inj.mp (by simpa using rest)⟩
    | cons c front =>
      obtain ⟨-, split⟩ := List.cons_eq_cons.mp rest
      exact Or.inr (Or.inl ⟨front, split⟩)
  · cases between with
    | nil => exact Or.inl ⟨String.toList_inj.mp (by simpa using longer), String.toList_inj.mp (by simpa using rest.symm)⟩
    | cons c front =>
      obtain ⟨-, split⟩ := List.cons_eq_cons.mp rest
      exact Or.inr (Or.inr ⟨front, split⟩)

theorem id_injective {a b : Declaration} (plain : '#' ∉ a.property.toList) (plain' : '#' ∉ b.property.toList)
    (same : a.id = b.id) : a.zoom = b.zoom ∧ a.instanceName = b.instanceName ∧ a.property = b.property := by
  obtain ⟨sameZoom, sameNames | ⟨front, split⟩ | ⟨front, split⟩⟩ := id_cases same
  · exact ⟨sameZoom, sameNames⟩
  · simp [split] at plain
  · simp [split] at plain'

/-- Whether ids tell the declarations apart that are for known properties. -/
def ToldApart (target : String → Option Target) (declarations : List Declaration) : Prop :=
  ∀ a ∈ declarations, ∀ b ∈ declarations, (target a.property).isSome → (target b.property).isSome → a.id = b.id →
    a.instanceName = b.instanceName ∧ a.property = b.property

theorem ToldApart.mono {target : String → Option Target} {declarations others : List Declaration}
    (apart : ToldApart target declarations) (sub : others ⊆ declarations) : ToldApart target others :=
  fun a aInside b bInside => apart a (sub aInside) b (sub bInside)

variable {target : String → Option Target} {level : Nat} {known more : List Declaration} {next : Declaration}

theorem foldl_keepFirst_any (kept : List Declaration) (inside : next ∈ more) :
    (more.foldl keepFirst kept).any next.rivals := by
  induction more generalizing kept with
  | nil => simp at inside
  | cons head rest ih =>
    rw [List.foldl_cons]
    rcases List.mem_cons.mp inside with rfl | inRest
    · obtain ⟨others, same⟩ := foldl_keepFirst_prefix (keepFirst kept next) rest
      have here : (keepFirst kept next).any next.rivals := by
        unfold keepFirst
        split
        · assumption
        · simp [rivals]
      rw [← same, List.any_append, here, Bool.true_or]
    · exact ih _ inRest

theorem due?_append_of_known (apart : ToldApart target (known ++ next :: more)) (allKnown : ∀ declaration ∈ known, (target declaration.property).isSome)
    (present : next.id ∈ known.map id) :
    Slice.due? target level (known ++ next :: more) = Slice.due? target level (known ++ more) := by
  by_cases draws : next.drawsAt target level
  · -- a known declaration with the same id is for the same levels, instance and property, and comes first
    obtain ⟨first, isKnown, sameId⟩ := List.mem_map.mp present
    have owned := (Bool.and_eq_true_iff.mp draws).1
    have nextKnown : (target next.property).isSome := by
      obtain ⟨owner, isOwner⟩ := Option.isSome_iff_exists.mp owned
      simp [(owner?_eq_some.mp isOwner).1]
    obtain ⟨sameInstance, sameProperty⟩ := apart first (List.mem_append_left _ isKnown) next
      (List.mem_append_right _ List.mem_cons_self) (allKnown first isKnown) nextKnown sameId
    have sameZoom := (id_cases sameId).1
    have sameOwner : first.owner? target = next.owner? target := owner?_of_rivals (rivals_iff.mpr ⟨sameInstance, sameProperty⟩)
    have drawsFirst : first.drawsAt target level := by rwa [drawsAt, sameOwner, sameZoom]
    have beaten : (winners target level known).any next.rivals := by
      have any := foldl_keepFirst_any [] (List.mem_filter.mpr ⟨isKnown, drawsFirst⟩)
      have sameRivals : first.rivals = next.rivals := by
        funext other
        simp only [rivals, sameInstance, sameProperty]
      rwa [sameRivals] at any
    have sameWinners : winners target level (known ++ next :: more) = winners target level (known ++ more) := by
      rw [winners_append, winners_append, List.filter_cons_of_pos draws, List.foldl_cons, keepFirst, if_pos beaten]
    obtain ⟨lead, isLead⟩ := Option.isSome_iff_exists.mp (List.find?_isSome.mpr ⟨first, isKnown, drawsFirst⟩)
    simp only [Slice.due?, List.find?_append, isLead, Option.some_or, Group.drawnAt, sameWinners]
  · have sameWinners : winners target level (known ++ next :: more) = winners target level (known ++ more) := by
      rw [winners_append, winners_append, List.filter_cons_of_neg draws]
    simp only [Slice.due?, List.find?_append, List.find?_cons_of_neg draws, Group.drawnAt, sameWinners]

theorem due?_joined (apart : ToldApart target (known ++ more))
    (allKnown : ∀ declaration ∈ joined known more, (target declaration.property).isSome) :
    Slice.due? target level (joined known more) = Slice.due? target level (known ++ more) := by
  induction more generalizing known with
  | nil => rw [joined_nil, List.append_nil]
  | cons next rest ih =>
    have knownHere : ∀ declaration ∈ known, (target declaration.property).isSome := fun declaration inside =>
      allKnown declaration ((prefix_joined known (next :: rest)).subset inside)
    rw [joined_cons] at allKnown ⊢
    by_cases present : next.id ∈ known.map id
    · rw [if_pos present] at allKnown ⊢
      have fewer : known ++ rest ⊆ known ++ next :: rest :=
        ((List.sublist_cons_self next rest).append_left known).subset
      rw [ih (apart.mono fewer) allKnown, due?_append_of_known apart knownHere present]
    · rw [if_neg present] at allKnown ⊢
      have same : known ++ [next] ++ rest = known ++ next :: rest := by rw [List.append_assoc, List.singleton_append]
      rw [ih (by rwa [same]) allKnown, same]

end Declaration

namespace Inheritance
open Declaration

variable {definitions : List Definition} {attachment : String}

theorem completedAll_filter (definitions : List Definition) (attachment : String) :
    (completedAll definitions).filter (fun definition => definition.attachment == attachment) =
      completedAll (definitions.filter fun definition => definition.attachment == attachment) := by
  induction definitions with
  | nil => rfl
  | cons definition later ih =>
    by_cases own : definition.attachment = attachment
    · have sameFollowers : followers definition (later.filter fun other => other.attachment == attachment) =
          followers definition later := by
        rw [followers, own, List.filter_filter]
        simp only [Bool.and_self]
        rw [followers, own]
      have same : completed definition (later.filter fun other => other.attachment == attachment) =
          completed definition later := by rw [completed, sameFollowers, completed]
      simp [completedAll, own, ih, same]
    · simp [completedAll, own, ih]

theorem completedAll_declarations : ∀ definition ∈ completedAll definitions,
    ∀ declaration ∈ definition.declarations, declaration ∈ definitions.flatMap Definition.declarations := by
  induction definitions with
  | nil => simp [completedAll]
  | cons definition later ih =>
    rw [List.flatMap_cons]
    refine List.forall_mem_cons.mpr ⟨fun declaration inside => ?_, fun other isOther declaration inside =>
      List.mem_append_right _ (ih other isOther declaration inside)⟩
    rw [completed, Definition.addDeclarations_declarations] at inside
    rcases mem_joined inside with own | taken
    · exact List.mem_append_left _ own
    · obtain ⟨source, follows, isSource⟩ := List.mem_flatMap.mp taken
      exact List.mem_append_right _ (List.mem_flatMap.mpr ⟨source, (mem_followers.mp follows).1, isSource⟩)

/-- Where the definitions of an attachment are completed, the first of them draws what all would, and where it draws
nothing the others do not draw anything either. -/
theorem findSome?_due {target : String → Option Target} {level count : Nat}
    (apart : ToldApart target (definitions.flatMap Definition.declarations))
    (alike : ∀ definition ∈ definitions, definition.attachment = attachment) (positive : 0 < count)
    (allKnown : ∀ definition ∈ (completedAll definitions).take count, ∀ declaration ∈ definition.declarations,
      (target declaration.property).isSome) :
    ((completedAll definitions).take count).findSome? (fun definition => Slice.due? target level definition.declarations) =
      Slice.due? target level (definitions.flatMap Definition.declarations) := by
  cases definitions with
  | nil => simp [completedAll, Slice.due?]
  | cons first later =>
    obtain ⟨more, rfl⟩ := Nat.exists_eq_succ_of_ne_zero (Nat.ne_of_gt positive)
    rw [completedAll, List.take_succ_cons] at allKnown ⊢
    have isJoined : (completed first later).declarations =
        joined first.declarations (later.flatMap Definition.declarations) := by
      refine completed_declarations fun other inLater => ?_
      rw [alike first List.mem_cons_self, alike other (List.mem_cons_of_mem _ inLater)]
    have knownFirst := (List.forall_mem_cons.mp allKnown).1
    rw [isJoined] at knownFirst
    rw [List.findSome?_cons, isJoined, due?_joined (by rwa [← List.flatMap_cons]) knownFirst, ← List.flatMap_cons]
    cases due : Slice.due? target level ((first :: later).flatMap Definition.declarations) with
    | some slice => rfl
    | none =>
      refine List.findSome?_eq_none_iff.mpr fun other isOther => ?_
      refine Option.map_eq_none_iff.mpr (List.find?_eq_none.mpr fun declaration inside => ?_)
      have isDeclared := completedAll_declarations other (List.mem_of_mem_take isOther) declaration inside
      exact List.find?_eq_none.mp (Option.map_eq_none_iff.mp due) declaration
        (by rw [List.flatMap_cons]; exact List.mem_append_right _ isDeclared)

end Inheritance
end MapStyle
