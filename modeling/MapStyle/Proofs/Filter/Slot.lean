import MapStyle.Proofs.Filter.Feature
/-!
Slots. Where keys hold no operators, a slot tells the key, the operator and, for a comparison that is there once for each
value, the value; so looking up a slot is asking for a filter.
-/
namespace MapStyle

/-- The first character of the class `p` splits a list in one way only. -/
theorem append_cons_injective {p : Char → Bool} {a a' z z' : List Char} {m m' : Char} (outer : ∀ c ∈ a, p c = false)
    (outer' : ∀ c ∈ a', p c = false) (inner : p m) (inner' : p m') (same : a ++ m :: z = a' ++ m' :: z') :
    a = a' ∧ m = m' ∧ z = z' := by
  induction a generalizing a' with
  | nil =>
    cases a' with
    | nil => exact ⟨rfl, List.cons_eq_cons.mp same⟩
    | cons c rest =>
      obtain ⟨rfl, -⟩ := List.cons_eq_cons.mp same
      simp [outer' m List.mem_cons_self] at inner
  | cons c rest ih =>
    cases a' with
    | nil =>
      obtain ⟨rfl, -⟩ := List.cons_eq_cons.mp same
      simp [outer c List.mem_cons_self] at inner'
    | cons c' rest' =>
      obtain ⟨rfl, sameRest⟩ := List.cons_eq_cons.mp same
      obtain ⟨sameOuter, sameInner⟩ := ih (fun c member => outer c (List.mem_cons_of_mem _ member))
        (fun c member => outer' c (List.mem_cons_of_mem _ member)) sameRest
      exact ⟨by rw [sameOuter], sameInner⟩

namespace Filter

theorem symbol_operators (op : Comparison) : op.symbol.toList ≠ [] ∧ ∀ c ∈ op.symbol.toList, isOperatorChar c := by
  cases op <;> exact ⟨by decide, List.all_eq_true.mp (by decide)⟩

theorem isOperatorChar_of_text {c : Char} (text : Text.isBlank c ∨ Number.isTextChar c) : isOperatorChar c = false := by
  by_contra operator
  have listed : c ∈ ['=', '!', '<', '>', '~', '%'] := by simpa [isOperatorChar, or_iff_not_imp_left] using operator
  revert text
  simp only [List.mem_cons, List.not_mem_nil, or_false] at listed
  rcases listed with rfl | rfl | rfl | rfl | rfl | rfl <;> decide

theorem mem_insertInto_iff {filter other : Filter} {filters : List Filter}
    (ordered : filters.Pairwise fun a b => a.slot < b.slot) :
    other ∈ filter.insertInto filters ↔ other = filter ∨ (other ∈ filters ∧ other.slot ≠ filter.slot) := by
  induction filters with
  | nil => simp [Filter.insertInto]
  | cons head rest ih =>
    have above := (List.pairwise_cons.mp ordered).1
    unfold Filter.insertInto
    split
    · next below =>
      have apart : ∀ g ∈ head :: rest, g.slot ≠ filter.slot := by
        intro g member same
        rcases List.mem_cons.mp member with atHead | inside
        · exact String.lt_irrefl _ (same ▸ atHead ▸ below)
        · exact String.lt_irrefl _ (same ▸ String.lt_trans below (above g inside))
      rw [List.mem_cons]
      exact or_congr_right ⟨fun member => ⟨member, apart other member⟩, And.left⟩
    · split
      · next beyond =>
        have apart : head.slot ≠ filter.slot := fun same => String.lt_irrefl _ (same ▸ beyond)
        rw [List.mem_cons, ih ordered.of_cons, List.mem_cons]
        constructor
        · rintro (atHead | same | ⟨inside, differs⟩)
          · exact Or.inr ⟨Or.inl atHead, atHead ▸ apart⟩
          · exact Or.inl same
          · exact Or.inr ⟨Or.inr inside, differs⟩
        · rintro (same | ⟨atHead | inside, differs⟩)
          · exact Or.inr (Or.inl same)
          · exact Or.inl atHead
          · exact Or.inr (Or.inr ⟨inside, differs⟩)
      -- the slot is taken, and the filter replaces the one that has it
      · next notBelow notBeyond =>
        have same : filter.slot = head.slot :=
          String.le_antisymm (String.not_lt.mp notBeyond) (String.not_lt.mp notBelow)
        have apart : ∀ g ∈ rest, g.slot ≠ filter.slot := fun g inside equal =>
          String.lt_irrefl _ ((equal.trans same) ▸ above g inside)
        rw [List.mem_cons, List.mem_cons]
        refine or_congr_right ⟨fun inside => ⟨Or.inr inside, apart other inside⟩, ?_⟩
        rintro ⟨atHead | inside, differs⟩
        · exact absurd (atHead ▸ same.symm) differs
        · exact inside

/-- What follows the operator in the slot of a filter. -/
def slotTail (filter : Filter) : String := if isPerValue filter.op then filter.value else ""

theorem slot_eq (filter : Filter) : filter.slot = filter.key ++ filter.op.symbol ++ filter.slotTail := by
  unfold slot slotTail valueSlot keySlot
  split <;> simp

theorem symbol_slotTail_injective {a b : Filter}
    (same : a.op.symbol.toList ++ a.slotTail.toList = b.op.symbol.toList ++ b.slotTail.toList) :
    a.op = b.op ∧ a.slotTail = b.slotTail := by
  revert same
  unfold slotTail
  cases aOp : a.op <;> cases bOp : b.op <;> simp [Comparison.symbol, isPerValue, String.toList_inj]

/-- The slot of a filter determines its key, its operator and what follows the operator. -/
theorem slot_injective {a b : Filter} (left : a.PlainKey) (right : b.PlainKey) (same : a.slot = b.slot) :
    a.key = b.key ∧ a.op = b.op ∧ a.slotTail = b.slotTail := by
  rw [slot_eq, slot_eq] at same
  have chars := congrArg String.toList same
  simp only [String.toList_append, List.append_assoc] at chars
  have aOperators := symbol_operators a.op
  have bOperators := symbol_operators b.op
  -- the key ends at the first character of an operator
  have sameKey : a.key.toList = b.key.toList := by
    cases aSymbol : a.op.symbol.toList with
    | nil => exact absurd aSymbol aOperators.1
    | cons m rest =>
      cases bSymbol : b.op.symbol.toList with
      | nil => exact absurd bSymbol bOperators.1
      | cons m' rest' =>
        rw [aSymbol] at aOperators
        rw [bSymbol] at bOperators
        rw [aSymbol, bSymbol] at chars
        exact (append_cons_injective left right (aOperators.2 m List.mem_cons_self)
          (bOperators.2 m' List.mem_cons_self) chars).1
  rw [sameKey] at chars
  exact ⟨String.toList_inj.mp sameKey, symbol_slotTail_injective (List.append_cancel_left chars)⟩

theorem Compares.slot_injective {values : Set String} {a b : Filter} (left : a.Compares values)
    (right : b.Compares values) (same : a.slot = b.slot) : a.key = b.key ∧ a.op = b.op ∧ a.slotTail = b.slotTail :=
  Filter.slot_injective left.plainKey right.plainKey same

end Filter

namespace FilterSet

theorem eq_of_slot {set : FilterSet} {a b : Filter} (left : a ∈ set.filters) (right : b ∈ set.filters)
    (same : a.slot = b.slot) : a = b := by
  have apart : set.filters.Pairwise fun a b => a.slot = b.slot → a = b :=
    set.ordered.imp fun below same => absurd (same ▸ below) (String.lt_irrefl _)
  have flipped : set.filters.Pairwise (flip fun a b => a.slot = b.slot → a = b) :=
    set.ordered.imp fun below same => absurd (same ▸ below) (String.lt_irrefl _)
  exact List.Pairwise.forall_of_forall_of_flip (fun _ _ _ => rfl) apart flipped left right same

theorem get?_eq_some_iff {set : FilterSet} {slot : String} {filter : Filter} :
    set.get? slot = some filter ↔ filter ∈ set.filters ∧ filter.slot = slot := by
  constructor
  · intro found
    exact ⟨List.mem_of_find?_eq_some found, by simpa using List.find?_some found⟩
  · rintro ⟨member, atSlot⟩
    cases found : set.get? slot with
    | none =>
      have absent := List.find?_eq_none.mp found filter member
      simp [atSlot] at absent
    | some other =>
      have sameSlot : other.slot = slot := by simpa using List.find?_some found
      rw [eq_of_slot (List.mem_of_find?_eq_some found) member (sameSlot.trans atSlot.symm)]

theorem contains_iff {set : FilterSet} {slot : String} :
    set.contains slot ↔ ∃ filter ∈ set.filters, filter.slot = slot := by
  simp [contains, Option.isSome_iff_exists, get?_eq_some_iff]

theorem mem_insert {set : FilterSet} {filter other : Filter} :
    other ∈ (set.insert filter).filters ↔ other = filter ∨ (other ∈ set.filters ∧ other.slot ≠ filter.slot) :=
  Filter.mem_insertInto_iff set.ordered

theorem mem_restrict {set : FilterSet} {keep : Filter → Bool} {other : Filter} :
    other ∈ (set.restrict keep).filters ↔ other ∈ set.filters ∧ keep other := List.mem_filter

theorem mem_erase {set : FilterSet} {slot : String} {other : Filter} :
    other ∈ (set.erase slot).filters ↔ other ∈ set.filters ∧ other.slot ≠ slot := by
  simp [erase, mem_restrict]

def PlainKeys (set : FilterSet) : Prop := ∀ filter ∈ set.filters, filter.PlainKey

section
variable {set : FilterSet} (plain : set.PlainKeys) {filter : Filter} (own : filter.PlainKey)
include plain own

theorem get?_keySlot {other : Filter} {op : Comparison} (perKey : Filter.isPerValue op = false) :
    set.get? (Filter.keySlot filter.key op) = some other ↔
      other ∈ set.filters ∧ other.key = filter.key ∧ other.op = op := by
  have ownSlot : Filter.PlainKey { filter with op } := own
  have atSlot : Filter.slot { filter with op } = Filter.keySlot filter.key op := by simp [Filter.slot, perKey]
  rw [get?_eq_some_iff, ← atSlot]
  refine and_congr_right fun member => ⟨fun same => ?_, ?_⟩
  · have parts := Filter.slot_injective (plain other member) ownSlot same
    exact ⟨parts.1, parts.2.1⟩
  · rintro ⟨sameKey, sameOp⟩
    simp [Filter.slot, sameKey, sameOp, perKey]

theorem get?_keySlot_none {op : Comparison} (perKey : Filter.isPerValue op = false)
    (absent : set.get? (Filter.keySlot filter.key op) = none) :
    ∀ other ∈ set.filters, other.key = filter.key → other.op ≠ op := by
  intro other member sameKey sameOp
  rw [(get?_keySlot plain own perKey).mpr ⟨member, sameKey, sameOp⟩] at absent
  simp at absent

/-- The slot of a comparison that is there once for each value is taken by the same comparison only. -/
theorem slot_eq_valueSlot {other : Filter} (member : other ∈ set.filters) {op : Comparison}
    (perValue : Filter.isPerValue op) :
    other.slot = Filter.valueSlot filter.key op filter.value ↔
      other.key = filter.key ∧ other.op = op ∧ other.value = filter.value := by
  have ownSlot : Filter.PlainKey { filter with op } := own
  have atSlot : Filter.slot { filter with op } = Filter.valueSlot filter.key op filter.value := by
    simp [Filter.slot, perValue]
  rw [← atSlot]
  constructor
  · intro same
    have parts := Filter.slot_injective (plain other member) ownSlot same
    have sameOp : other.op = op := parts.2.1
    exact ⟨parts.1, sameOp, by simpa [Filter.slotTail, sameOp, perValue] using parts.2.2⟩
  · rintro ⟨sameKey, sameOp, sameValue⟩
    simp [Filter.slot, sameKey, sameOp, sameValue, perValue]

theorem contains_valueSlot {op : Comparison} (perValue : Filter.isPerValue op) :
    set.contains (Filter.valueSlot filter.key op filter.value) ↔
      ∃ other ∈ set.filters, other.key = filter.key ∧ other.op = op ∧ other.value = filter.value := by
  rw [contains_iff]
  exact exists_congr fun other => and_congr_right fun member => slot_eq_valueSlot plain own member perValue

end

theorem Compares.plainKeys {values : Set String} {set : FilterSet} (compares : set.Compares values) : set.PlainKeys :=
  fun filter member => (compares filter member).plainKey

end FilterSet
end MapStyle
