import MapStyle.Text.Split
/-!
Splitting and stripping, undone and repeated. Parts without separators come back from the list that joins them, and
stripping leaves alone just the texts that have nothing to strip at either end.
-/
namespace MapStyle.Text

section split
variable {α : Type} {p : α → Bool} {part : List α}

theorem splitBy_of_clean (clean : ∀ x ∈ part, p x = false) : splitBy p part = [part] := by
  induction part with
  | nil => rfl
  | cons x rest ih =>
    obtain ⟨first, others⟩ := List.forall_mem_cons.mp clean
    rw [splitBy, first, ih others]
    rfl

theorem splitBy_append_cons {separator : α} (clean : ∀ x ∈ part, p x = false) (separates : p separator) (rest : List α) :
    splitBy p (part ++ separator :: rest) = part :: splitBy p rest := by
  induction part with
  | nil => rw [List.nil_append, splitBy, if_pos separates]
  | cons x others ih =>
    obtain ⟨first, cleanOthers⟩ := List.forall_mem_cons.mp clean
    rw [List.cons_append, splitBy, first, ih cleanOthers]
    rfl

theorem clean_of_mem_splitBy {xs : List α} (member : part ∈ splitBy p xs) : ∀ x ∈ part, p x = false := by
  induction xs generalizing part with
  | nil =>
    obtain rfl : part = [] := by simpa [splitBy] using member
    simp
  | cons x rest ih =>
    rw [splitBy] at member
    split at member
    · rcases List.mem_cons.mp member with rfl | inRest
      · simp
      · exact ih inRest
    · rename_i other
      cases parts : splitBy p rest with
      | nil => exact absurd parts (splitBy_ne_nil p rest)
      | cons head tail =>
        rw [parts] at member ih
        rcases List.mem_cons.mp member with rfl | inTail
        · exact List.forall_mem_cons.mpr ⟨eq_false_of_ne_true other, ih List.mem_cons_self⟩
        · exact ih (List.mem_cons_of_mem _ inTail)

theorem splitBy_map {β : Type} (p : β → Bool) (g : α → β) (xs : List α) :
    splitBy p (xs.map g) = (splitBy (p ∘ g) xs).map (List.map g) := by
  induction xs with
  | nil => rfl
  | cons x xs ih =>
    rw [List.map_cons, splitBy, splitBy, ih]
    cases splitBy (p ∘ g) xs <;> by_cases separates : p (g x) <;> simp [separates]

end split

section strip
variable {p : Char → Bool} {cs : List Char}

/-- Neither end of a text is in the class `p`. -/
def Bare (p : Char → Bool) (cs : List Char) : Prop :=
  (∀ c ∈ cs.head?, p c = false) ∧ ∀ c ∈ cs.getLast?, p c = false

theorem not_head_dropWhile {c : Char} (first : (cs.dropWhile p).head? = some c) : p c = false := by
  have other := List.head?_dropWhile_not p cs
  rwa [first] at other

theorem bare_stripBoth (p : Char → Bool) (cs : List Char) : Bare p (stripBoth p cs) := by
  constructor
  · intro c first
    -- what is dropped at the end leaves the front as it is
    have front : stripBoth p cs <+: cs.dropWhile p :=
      List.reverse_suffix.mp (by simpa [stripBoth, dropEndWhile] using List.dropWhile_suffix p)
    obtain ⟨rest, same⟩ := front
    apply @not_head_dropWhile p cs
    rw [← same, List.head?_append, first]
    rfl
  · intro c last
    apply @not_head_dropWhile p (cs.dropWhile p).reverse
    simpa [stripBoth, dropEndWhile] using last

theorem stripBoth_of_bare (bare : Bare p cs) : stripBoth p cs = cs := by
  have front : cs.dropWhile p = cs := by
    cases cs with
    | nil => rfl
    | cons c rest => rw [List.dropWhile_cons_of_neg (by simp [bare.1 c rfl])]
  have back : cs.reverse.dropWhile p = cs.reverse := by
    cases same : cs.reverse with
    | nil => rfl
    | cons c rest =>
      have last : cs.getLast? = some c := by rw [← List.head?_reverse, same]; rfl
      rw [List.dropWhile_cons_of_neg (by simp [bare.2 c last])]
  rw [stripBoth, front, dropEndWhile, back, List.reverse_reverse]

theorem stripBoth_eq_self : stripBoth p cs = cs ↔ Bare p cs :=
  ⟨fun same => same ▸ bare_stripBoth p cs, stripBoth_of_bare⟩

theorem stripBoth_cons {c : Char} (inside : p c) : stripBoth p (c :: cs) = stripBoth p cs := by
  rw [stripBoth, List.dropWhile_cons_of_pos inside, stripBoth]

end strip
end MapStyle.Text
