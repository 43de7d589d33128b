import Mathlib.Order.MinMax
import Mathlib.Order.Monotone.Basic
/-!
Sorting by numbers. Sorting is stable, so that what is left out after sorting might as well be left out before; and it goes
by the order of the numbers, so that other numbers in the same order sort alike.
-/
namespace MapStyle
variable {α : Type}

theorem append_injective {has : α → Bool} {front back front' back' : List α} (inFront : ∀ item ∈ front, has item)
    (inBack : ∀ item ∈ back, has item = false) (inFront' : ∀ item ∈ front', has item)
    (inBack' : ∀ item ∈ back', has item = false) (same : front ++ back = front' ++ back') : front = front' ∧ back = back' := by
  have kept := congrArg (List.filter has) same
  have sameFront : front = front' := by
    simpa [List.filter_eq_self.mpr inFront, List.filter_eq_self.mpr inFront', List.filter_eq_nil_iff.mpr fun item isBack =>
      Bool.eq_false_iff.mp (inBack item isBack), List.filter_eq_nil_iff.mpr fun item isBack =>
      Bool.eq_false_iff.mp (inBack' item isBack)] using kept
  subst sameFront
  exact ⟨rfl, List.append_cancel_left same⟩

theorem le_of_sorted {le : α → α → Bool} {front back : List α} {item : α}
    (sorted : (front ++ item :: back).Pairwise fun a b => le a b) : ∀ other ∈ back, (!le item other) = false := by
  intro other isBack
  have behind := (List.pairwise_cons.mp (List.pairwise_append.mp sorted).2.1).1 other isBack
  simp [behind]

theorem filter_mergeSort {le : α → α → Bool} (trans : ∀ a b c, le a b → le b c → le a c) (total : ∀ a b, le a b || le b a)
    (keep : α → Bool) (items : List α) : (items.mergeSort le).filter keep = (items.filter keep).mergeSort le := by
  induction items with
  | nil => simp
  | cons item rest ih =>
    obtain ⟨front, back, sorted, sortedRest, before⟩ := List.mergeSort_cons trans total item rest
    rw [sortedRest, List.filter_append] at ih
    rw [sorted, List.filter_append]
    by_cases kept : keep item
    · obtain ⟨frontKept, backKept, sortedKept, sortedRestKept, beforeKept⟩ :=
        List.mergeSort_cons trans total item (rest.filter keep)
      rw [List.filter_cons_of_pos kept, List.filter_cons_of_pos kept, sortedKept]
      -- in both lists the item stands right behind all that it does not come before
      have parts : front.filter keep ++ back.filter keep = frontKept ++ backKept := ih.trans sortedRestKept
      have behind := le_of_sorted (sorted ▸ List.pairwise_mergeSort trans total (item :: rest))
      have behindKept := le_of_sorted (sortedKept ▸ List.pairwise_mergeSort trans total (item :: rest.filter keep))
      obtain ⟨sameFront, sameBack⟩ := append_injective (fun other isFront => before other (List.mem_filter.mp isFront).1)
        (fun other isBack => behind other (List.mem_filter.mp isBack).1) beforeKept behindKept parts
      rw [sameFront, sameBack]
    · rw [List.filter_cons_of_neg kept, List.filter_cons_of_neg kept, ih]

/-- Sorted by numbers that are put in the place of others in the same order, items come in the same order. -/
theorem sort_renumber {index : α → Nat} {ren : α → α} {keep : α → Bool} {moved : Nat → Nat} (mono : StrictMono moved)
    (keeps : ∀ item, keep (ren item) = keep item) (moves : ∀ item, keep item → index (ren item) = moved (index item))
    (items : List α) : ((items.map ren).mergeSort fun a b => index a ≤ index b).filter keep =
      ((items.mergeSort fun a b => index a ≤ index b).filter keep).map ren := by
  have trans : ∀ a b c : α, decide (index a ≤ index b) → decide (index b ≤ index c) → decide (index a ≤ index c) := by
    simpa using fun a b c => Nat.le_trans
  have total : ∀ a b : α, decide (index a ≤ index b) || decide (index b ≤ index a) := by
    simpa using fun a b => Nat.le_total (index a) (index b)
  rw [filter_mergeSort trans total, filter_mergeSort trans total, List.filter_map,
    List.map_mergeSort (s := fun a b => decide (index a ≤ index b))]
  · simp only [Function.comp_def, keeps]
  · intro a inA b inB
    rw [moves a (List.mem_filter.mp inA).2, moves b (List.mem_filter.mp inB).2]
    simp [mono.le_iff_le]

theorem min?_map {moved : Nat → Nat} (mono : Monotone moved) (numbers : List Nat) :
    (numbers.map moved).min? = numbers.min?.map moved := by
  cases numbers with
  | nil => rfl
  | cons first rest =>
    rw [List.map_cons, List.min?_cons', List.min?_cons', Option.map_some]
    refine congrArg some ?_
    induction rest generalizing first with
    | nil => rfl
    | cons second rest ih => rw [List.map_cons, List.foldl_cons, List.foldl_cons, ← mono.map_min, ih]

end MapStyle
