import MapStyle.Proofs.Filter.Slot
/-!
The text of a set. Where keys hold no operators and values are numbers, it tells every comparison of the set, so sets
that are told apart by their texts are told apart by nothing else.
-/
namespace MapStyle

namespace Filter

def listText (filters : List Filter) : List Char := (String.intercalate " " (filters.map Filter.text)).toList

/-- What stands in a text behind the first value. -/
def tailText (rest : List Filter) : List Char := if rest.isEmpty then [] else ' ' :: listText rest

theorem listText_cons (head : Filter) (rest : List Filter) :
    listText (head :: rest) = ('[' :: head.key.toList ++ [']']) ++ (head.op.symbol.toList ++
      (head.value.toList ++ tailText rest)) := by
  cases rest <;> simp [listText, tailText, Filter.text]

/-- Behind a value stands nothing, or the space and the bracket that open the next filter. -/
theorem tailText_cases (rest : List Filter) :
    (rest = [] ∧ tailText rest = []) ∨ ∃ more, tailText rest = ' ' :: '[' :: more ∧ listText rest = '[' :: more := by
  cases rest with
  | nil => exact Or.inl ⟨rfl, rfl⟩
  | cons head rest =>
    refine Or.inr ⟨_, ?_, listText_cons head rest⟩
    rw [tailText, listText_cons]
    rfl

variable {values : Set String} (one : OneText values)
include one

theorem Compares.value_ne_nil {filter : Filter} (compares : filter.Compares values) : filter.value.toList ≠ [] := by
  intro isEmpty
  obtain ⟨number, reads, -⟩ := compares.numeric one
  rw [Filter.numeric, String.toList_eq_nil_iff.mp isEmpty, show Number.read? (Text.trim "") = none by decide] at reads
  cases reads

theorem Compares.value_noBracket {filter : Filter} (compares : filter.Compares values) :
    ∀ c ∈ filter.value.toList, (c == '[') = false := by
  intro c member
  rcases compares.plainValue one c member with blank | text
  · exact beq_eq_false_iff_ne.mpr fun isBracket => by subst isBracket; revert blank; decide
  · exact beq_eq_false_iff_ne.mpr fun isBracket => by subst isBracket; revert text; decide

theorem value_tail_injective {a b : Filter} {as bs : List Filter} (left : a.Compares values) (right : b.Compares values)
    (same : a.value.toList ++ tailText as = b.value.toList ++ tailText bs) :
    a.value = b.value ∧ ((as = [] ∧ bs = []) ∨ (as ≠ [] ∧ bs ≠ [] ∧ listText as = listText bs)) := by
  have noBracket : ∀ {value : List Char}, (∀ c ∈ value, (c == '[') = false) →
      ∀ c ∈ value ++ [' '], (c == '[') = false := by
    intro value plain c member
    rcases List.mem_append.mp member with inValue | isSpace
    · exact plain c inValue
    · rw [List.mem_singleton.mp isSpace]; decide
  rcases tailText_cases as with ⟨aEmpty, aTail⟩ | ⟨aMore, aTail, aText⟩ <;>
    rcases tailText_cases bs with ⟨bEmpty, bTail⟩ | ⟨bMore, bTail, bText⟩ <;> rw [aTail, bTail] at same
  · exact ⟨String.toList_inj.mp (by simpa using same), Or.inl ⟨aEmpty, bEmpty⟩⟩
  · have bracket : '[' ∈ a.value.toList := by rw [← List.append_nil a.value.toList, same]; simp
    simpa using left.value_noBracket one '[' bracket
  · have bracket : '[' ∈ b.value.toList := by rw [← List.append_nil b.value.toList, ← same]; simp
    simpa using right.value_noBracket one '[' bracket
  · have spaced : (a.value.toList ++ [' ']) ++ '[' :: aMore = (b.value.toList ++ [' ']) ++ '[' :: bMore := by
      simpa using same
    obtain ⟨sameValue, -, sameMore⟩ := append_cons_injective (p := (· == '['))
      (noBracket (left.value_noBracket one)) (noBracket (right.value_noBracket one)) rfl rfl spaced
    refine ⟨String.toList_inj.mp (List.append_cancel_right sameValue), Or.inr ⟨?_, ?_, by rw [aText, bText, sameMore]⟩⟩
    · rintro rfl; simp [tailText] at aTail
    · rintro rfl; simp [tailText] at bTail

theorem listText_cons_injective {a b : Filter} {as bs : List Filter} (left : a.Compares values)
    (right : b.Compares values) (same : listText (a :: as) = listText (b :: bs)) :
    (a.key = b.key ∧ a.op = b.op ∧ a.value = b.value) ∧
      ((as = [] ∧ bs = []) ∨ (as ≠ [] ∧ bs ≠ [] ∧ listText as = listText bs)) := by
  rw [listText_cons, listText_cons] at same
  have bracketed : ∀ {key : List Char}, (∀ c ∈ key, isOperatorChar c = false) →
      ∀ c ∈ '[' :: key ++ [']'], isOperatorChar c = false := by
    intro key plain c member
    simp only [List.cons_append, List.mem_cons, List.mem_append, List.not_mem_nil, or_false] at member
    rcases member with rfl | inKey | rfl
    · decide
    · exact plain c inKey
    · decide
  obtain ⟨aMark, aSymbol, aOp⟩ := List.exists_cons_of_ne_nil (symbol_operators a.op).1
  obtain ⟨bMark, bSymbol, bOp⟩ := List.exists_cons_of_ne_nil (symbol_operators b.op).1
  have aOperators := (symbol_operators a.op).2
  have bOperators := (symbol_operators b.op).2
  rw [aOp] at aOperators
  rw [bOp] at bOperators
  have marked := same
  rw [aOp, bOp, List.cons_append, List.cons_append] at marked
  -- the key ends at the first character of an operator
  obtain ⟨sameKey, -, -⟩ := append_cons_injective (bracketed left.plainKey) (bracketed right.plainKey)
    (aOperators aMark List.mem_cons_self) (bOperators bMark List.mem_cons_self) marked
  rw [sameKey] at same
  have behind := List.append_cancel_left same
  obtain ⟨x, xs, aValue⟩ := List.exists_cons_of_ne_nil (left.value_ne_nil one)
  obtain ⟨y, ys, bValue⟩ := List.exists_cons_of_ne_nil (right.value_ne_nil one)
  have xPlain := isOperatorChar_of_text (left.plainValue one x (by rw [aValue]; exact List.mem_cons_self))
  have yPlain := isOperatorChar_of_text (right.plainValue one y (by rw [bValue]; exact List.mem_cons_self))
  have valued := behind
  rw [aValue, bValue, List.cons_append, List.cons_append] at valued
  -- and the operator at the first character of the value
  obtain ⟨sameSymbol, -, -⟩ := append_cons_injective (p := fun c => !isOperatorChar c)
    (fun c member => by simp [(symbol_operators a.op).2 c member])
    (fun c member => by simp [(symbol_operators b.op).2 c member]) (by simp [xPlain]) (by simp [yPlain]) valued
  rw [sameSymbol] at behind
  obtain ⟨sameValue, sameRest⟩ := value_tail_injective one left right (List.append_cancel_left behind)
  refine ⟨⟨String.toList_inj.mp ?_, Comparison.symbol_injective _ _ (String.toList_inj.mp sameSymbol), sameValue⟩, sameRest⟩
  simpa using sameKey

theorem listText_injective {as bs : List Filter} (left : ∀ a ∈ as, a.Compares values)
    (right : ∀ b ∈ bs, b.Compares values) (same : listText as = listText bs) :
    List.Forall₂ (fun a b => a.key = b.key ∧ a.op = b.op ∧ a.value = b.value) as bs := by
  induction as generalizing bs with
  | nil =>
    cases bs with
    | nil => exact .nil
    | cons b rest => rw [listText_cons] at same; simp [listText] at same
  | cons a as ih =>
    cases bs with
    | nil => rw [listText_cons] at same; simp [listText] at same
    | cons b bs =>
      obtain ⟨sameHead, sameRest⟩ := listText_cons_injective one (left a List.mem_cons_self)
        (right b List.mem_cons_self) same
      refine .cons sameHead ?_
      rcases sameRest with ⟨rfl, rfl⟩ | ⟨-, -, sameText⟩
      · exact .nil
      · exact ih (fun a member => left a (List.mem_cons_of_mem _ member))
          (fun b member => right b (List.mem_cons_of_mem _ member)) sameText

end Filter

namespace FilterSet
variable {values : Set String} (one : OneText values)
include one

theorem text_injective {a b : FilterSet} (left : a.Compares values) (right : b.Compares values) (same : a.text = b.text) :
    List.Forall₂ (fun x y => x.key = y.key ∧ x.op = y.op ∧ x.value = y.value) a.filters b.filters :=
  Filter.listText_injective one left right (congrArg String.toList same)

theorem exists_of_text {a b : FilterSet} (left : a.Compares values) (right : b.Compares values) (same : a.text = b.text)
    {other : Filter} (member : other ∈ b.filters) :
    ∃ filter ∈ a.filters, filter.key = other.key ∧ filter.op = other.op ∧ filter.value = other.value := by
  have pairs := text_injective one left right same
  generalize a.filters = as at *
  generalize b.filters = bs at *
  induction pairs with
  | nil => simp at member
  | cons sameHead _ ih =>
    rcases List.mem_cons.mp member with rfl | inside
    · exact ⟨_, List.mem_cons_self, sameHead⟩
    · obtain ⟨filter, inRest, twin⟩ := ih inside
      exact ⟨filter, List.mem_cons_of_mem _ inRest, twin⟩

theorem accepts_of_text {a b : FilterSet} (left : a.Compares values) (right : b.Compares values) (same : a.text = b.text)
    {feature : Feature} (accepted : b.accepts feature) : a.accepts feature := by
  intro filter member
  obtain ⟨other, otherMember, sameKey, sameOp, sameValue⟩ := exists_of_text one right left same.symm member
  obtain ⟨number, reads, holds⟩ := accepted other otherMember
  refine ⟨number, ?_, ?_⟩
  · rw [Filter.numeric, ← sameValue]; exact reads
  · rw [← sameKey, ← sameOp]; exact holds

end FilterSet
end MapStyle
