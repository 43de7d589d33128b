import MapStyle.Proofs.Cascade.Growth
/-!
The part of the work that concerns one attachment. Its members are those of the attachment, and each is known by its rank
among them; what is done for the attachment is done in the part alike, and what is done for others leaves it as it is.
-/
namespace MapStyle

section rank
variable {α : Type} {keep : α → Bool} {items : List α} {n m : Nat} {item other : α}

theorem getElem?_filter_rank (found : items[n]? = some item) (kept : keep item) :
    (items.filter keep)[(items.take n).countP keep]? = some item := by
  induction items generalizing n with
  | nil => simp at found
  | cons head rest ih =>
    cases n with
    | zero =>
      obtain rfl : head = item := by simpa using found
      simp [kept]
    | succ n =>
      have next := ih (by simpa using found)
      by_cases keepHead : keep head
      · simpa [keepHead] using next
      · simpa [keepHead] using next

theorem filter_modify_kept (found : items[n]? = some item) (kept : keep item) {change : α → α}
    (keeps : ∀ item, keep (change item) = keep item) :
    (items.modify n change).filter keep = (items.filter keep).modify ((items.take n).countP keep) change := by
  induction items generalizing n with
  | nil => simp at found
  | cons head rest ih =>
    cases n with
    | zero =>
      obtain rfl : head = item := by simpa using found
      simp [kept, keeps]
    | succ n =>
      have next := ih (n := n) (by simpa using found)
      by_cases keepHead : keep head
      · simpa [keepHead] using next
      · simpa [keepHead] using next

theorem filter_modify_other (found : items[n]? = some item) (other : keep item = false) {change : α → α}
    (keeps : ∀ item, keep (change item) = keep item) : (items.modify n change).filter keep = items.filter keep := by
  induction items generalizing n with
  | nil => simp
  | cons head rest ih =>
    cases n with
    | zero =>
      obtain rfl : head = item := by simpa using found
      simp [other, keeps]
    | succ n => simp [List.filter_cons, ih (n := n) (by simpa using found)]

/-- Of two places, one with something that is kept, the later has the higher rank. -/
theorem countP_take_lt (found : items[n]? = some item) (kept : keep item) (before : n < m) :
    (items.take n).countP keep < (items.take m).countP keep := by
  have next : (items.take (n + 1)).countP keep = (items.take n).countP keep + 1 := by
    rw [List.take_add_one, found, List.countP_append]
    simp [kept]
  have fewer : (items.take (n + 1)).countP keep ≤ (items.take m).countP keep :=
    (List.take_prefix_take_left before).sublist.countP_le
  omega

theorem countP_take_injective (found : items[n]? = some item) (kept : keep item) (foundOther : items[m]? = some other)
    (keptOther : keep other) (same : (items.take n).countP keep = (items.take m).countP keep) : n = m := by
  rcases Nat.lt_trichotomy n m with before | equal | after
  · have := countP_take_lt found kept before
    omega
  · exact equal
  · have := countP_take_lt foundOther keptOther after
    omega

end rank

namespace Inheritance

def isFor (attachment : String) (definition : Definition) : Bool := definition.attachment == attachment

namespace Work

/-- The rank of a member among those of an attachment. -/
def rank (work : Work) (attachment : String) (member : Nat) : Nat :=
  (work.arena.toList.take member).countP (isFor attachment)

def part (work : Work) (attachment : String) : Work where
  arena := work.arena.filter (isFor attachment)
  index := (work.index.filter fun entry => entry.1.1 == attachment).map fun entry =>
    (entry.1, work.rank attachment entry.2)
  placed := (work.placed.filter fun entry => entry.1 == attachment).map fun entry => (entry.1, work.rank attachment entry.2)

/-- The index and the styles lead to members with their attachments. -/
structure Tidy (work : Work) : Prop where
  index : ∀ entry ∈ work.index, ∃ definition, work.arena[entry.2]? = some definition ∧ definition.attachment = entry.1.1
  placed : work.Placed

end Work

variable {work : Work} {attachment : String} {member other : Nat} {definition : Definition}

theorem Work.Tidy.known (tidy : work.Tidy) {filters : String} (known : work.find? attachment filters = some member) :
    ∃ definition, work.arena[member]? = some definition ∧ definition.attachment = attachment := by
  obtain ⟨front, back, split, -⟩ := List.lookup_eq_some_iff.mp known
  exact tidy.index ((attachment, filters), member) (by simp [split])

/-- Where members stay as they start, the index leads to what it led to. -/
theorem Work.Tidy.grow {after : Work} (tidy : work.Tidy) (grows : Grows work after) (index : after.index = work.index)
    (placed : after.placed = work.placed) : after.Tidy where
  index := by
    intro entry isEntry
    obtain ⟨definition, found, same⟩ := tidy.index entry (index ▸ isEntry)
    obtain ⟨later, foundLater, starts⟩ := grows _ _ found
    exact ⟨later, foundLater, starts.attachment.trans same⟩
  placed := by
    intro entry isEntry
    obtain ⟨definition, found, same⟩ := tidy.placed entry (placed ▸ isEntry)
    obtain ⟨later, foundLater, starts⟩ := grows _ _ found
    exact ⟨later, foundLater, starts.attachment.trans same⟩

theorem Work.Tidy.register (tidy : work.Tidy) (found : work.arena[member]? = some definition) (filters : String) :
    (work.register definition.attachment filters member).Tidy where
  index := List.forall_mem_cons.mpr ⟨⟨definition, found, rfl⟩, tidy.index⟩
  placed := tidy.placed

def Work.attachments (work : Work) : List String := work.arena.toList.map Definition.attachment

theorem rank_eq : work.rank attachment member = (work.attachments.take member).count attachment := by
  rw [Work.rank, Work.attachments, ← List.map_take, List.count, List.countP_map]
  rfl

theorem rank_stable {after : Work} (more : work.attachments <+: after.attachments) (inside : member ≤ work.arena.size) :
    after.rank attachment member = work.rank attachment member := by
  obtain ⟨new, split⟩ := more
  have within : member ≤ work.attachments.length := by simpa [Work.attachments] using inside
  rw [rank_eq, rank_eq, ← split, List.take_append_of_le_length within]

theorem attachments_push (copy : Definition) : (work.push copy).attachments = work.attachments ++ [copy.attachment] := by
  simp [Work.attachments]

theorem attachments_extend (declarations : List Declaration) :
    (work.extend member declarations).attachments = work.attachments := by
  refine List.ext_getElem? fun place => ?_
  simp only [Work.attachments, List.getElem?_map, Array.getElem?_toList, Work.arena_extend, Option.map_map]
  refine congrArg (Option.map · _) (funext fun definition => ?_)
  simp only [Function.comp_apply]
  split
  · exact Definition.addDeclarations_attachment _ _
  · rfl

@[simp] theorem rank_extend (declarations : List Declaration) :
    (work.extend member declarations).rank attachment other = work.rank attachment other := by
  rw [rank_eq, rank_eq, attachments_extend]

@[simp] theorem rank_register {name filters : String} :
    (work.register name filters member).rank attachment other = work.rank attachment other := rfl

theorem rank_push (inside : member ≤ work.arena.size) (copy : Definition) :
    (work.push copy).rank attachment member = work.rank attachment member :=
  rank_stable (attachments_push copy ▸ List.prefix_append _ _) inside

theorem lt_size (found : work.arena[member]? = some definition) : member < work.arena.size :=
  (Array.getElem?_eq_some_iff.mp found).1

/-- Of the members of the attachment, each has a rank of its own. -/
theorem rank_injective {definition otherDefinition : Definition} (found : work.arena[member]? = some definition)
    (own : definition.attachment = attachment) (foundOther : work.arena[other]? = some otherDefinition)
    (otherOwn : otherDefinition.attachment = attachment) (same : work.rank attachment member = work.rank attachment other) :
    member = other := by
  rw [← Array.getElem?_toList] at found foundOther
  exact countP_take_injective found (by simpa [isFor] using own) foundOther (by simpa [isFor] using otherOwn) same

theorem part_found (found : work.arena[member]? = some definition) :
    (work.part definition.attachment).arena[work.rank definition.attachment member]? = some definition := by
  rw [← Array.getElem?_toList] at found
  rw [Work.part, ← Array.getElem?_toList, Array.toList_filter]
  exact getElem?_filter_rank found (by simp [isFor])

theorem part_size : (work.part attachment).arena.size = work.rank attachment work.arena.size := by
  simp [Work.part, Work.rank, ← Array.length_toList, List.countP_eq_length_filter]

theorem part_find? (filters : String) :
    (work.part attachment).find? attachment filters = (work.find? attachment filters).map (work.rank attachment) := by
  unfold Work.find? Work.part
  generalize work.rank attachment = rank
  induction work.index with
  | nil => rfl
  | cons entry rest ih =>
    obtain ⟨⟨name, text⟩, known⟩ := entry
    by_cases own : name = attachment
    · by_cases same : filters = text
      · simp [own, same]
      · have differs : ((attachment, filters) == (attachment, text)) = false := by simpa using same
        simpa [own, List.lookup_cons, differs] using ih
    · have differs : ((attachment, filters) == (name, text)) = false := by simpa using fun same => absurd same.symm own
      simpa [own, List.lookup_cons, differs] using ih

theorem Work.Tidy.le_size (tidy : work.Tidy) :
    (∀ entry ∈ work.index, entry.2 ≤ work.arena.size) ∧ ∀ entry ∈ work.placed, entry.2 ≤ work.arena.size := by
  constructor
  · intro entry isEntry
    obtain ⟨definition, found, -⟩ := tidy.index entry isEntry
    exact Nat.le_of_lt (lt_size found)
  · intro entry isEntry
    obtain ⟨definition, found, -⟩ := tidy.placed entry isEntry
    exact Nat.le_of_lt (lt_size found)

/-- Where index and styles are the same and members come only at the end, the part differs in its arena only. -/
theorem part_eq (tidy : work.Tidy) {after : Work} (index : after.index = work.index) (placed : after.placed = work.placed)
    (more : work.attachments <+: after.attachments) : after.part attachment =
      { work.part attachment with arena := after.arena.filter (isFor attachment) } := by
  have indexed : ∀ entry ∈ work.index.filter (·.1.1 == attachment),
      (entry.1, after.rank attachment entry.2) = (entry.1, work.rank attachment entry.2) := fun entry inside =>
    congrArg (entry.1, ·) (rank_stable more (tidy.le_size.1 entry (List.mem_of_mem_filter inside)))
  have styled : ∀ entry ∈ work.placed.filter (·.1 == attachment),
      (entry.1, after.rank attachment entry.2) = (entry.1, work.rank attachment entry.2) := fun entry inside =>
    congrArg (entry.1, ·) (rank_stable more (tidy.le_size.2 entry (List.mem_of_mem_filter inside)))
  simp only [Work.part, index, placed, Work.mk.injEq, true_and]
  exact ⟨List.map_congr_left indexed, List.map_congr_left styled⟩

theorem part_push (tidy : work.Tidy) (copy : Definition) :
    (work.push copy).part copy.attachment = (work.part copy.attachment).push copy := by
  have same := @part_eq _ copy.attachment tidy (work.push copy) rfl rfl (by simp [attachments_push])
  simpa [Work.part, Work.push, isFor] using same

theorem part_push_other (tidy : work.Tidy) {copy : Definition} (other : copy.attachment ≠ attachment) :
    (work.push copy).part attachment = work.part attachment := by
  have same := @part_eq _ attachment tidy (work.push copy) rfl rfl (by simp [attachments_push])
  simpa [Work.part, Work.push, isFor, other] using same

theorem part_extend (tidy : work.Tidy) (found : work.arena[member]? = some definition) (declarations : List Declaration) :
    (work.extend member declarations).part definition.attachment =
      (work.part definition.attachment).extend (work.rank definition.attachment member) declarations := by
  rw [@part_eq _ _ tidy (work.extend member declarations) rfl rfl (by simp [attachments_extend])]
  rw [← Array.getElem?_toList] at found
  have arena := filter_modify_kept found (show isFor definition.attachment definition by simp [isFor])
    (show ∀ other, isFor definition.attachment (Definition.addDeclarations other declarations) =
      isFor definition.attachment other by simp [isFor])
  simp only [Work.part, Work.extend, Work.mk.injEq, and_true]
  rw [← Array.toList_inj]
  simpa [Work.rank] using arena

theorem part_extend_other (tidy : work.Tidy) (found : work.arena[member]? = some definition)
    (other : definition.attachment ≠ attachment) (declarations : List Declaration) :
    (work.extend member declarations).part attachment = work.part attachment := by
  rw [@part_eq _ _ tidy (work.extend member declarations) rfl rfl (by simp [attachments_extend])]
  rw [← Array.getElem?_toList] at found
  have arena := filter_modify_other found (show isFor attachment definition = false by simpa [isFor] using other)
    (show ∀ other, isFor attachment (Definition.addDeclarations other declarations) = isFor attachment other by simp [isFor])
  simp only [Work.part, Work.extend, Work.mk.injEq, and_true]
  rw [← Array.toList_inj]
  simpa using arena

theorem part_register (filters : String) : (work.register attachment filters member).part attachment =
    (work.part attachment).register attachment filters (work.rank attachment member) := by
  simp [Work.part, Work.register, Work.rank]

theorem part_register_other {name : String} (other : name ≠ attachment) (filters : String) :
    (work.register name filters member).part attachment = work.part attachment := by
  simp [Work.part, Work.register, Work.rank, other]

theorem part_place (found : work.arena[member]? = some definition) :
    (work.place definition.attachment member).part definition.attachment =
      (work.part definition.attachment).place definition.attachment (work.rank definition.attachment member) := by
  rw [place_eq _ found, place_eq _ (part_found found)]
  simp [Work.part, Work.register, Work.rank]

theorem part_place_other (found : work.arena[member]? = some definition) {name : String} (other : name ≠ attachment) :
    (work.place name member).part attachment = work.part attachment := by
  rw [place_eq _ found]
  simp [Work.part, Work.register, Work.rank, other]

end Inheritance
end MapStyle
