import Mathlib.Data.List.Basic
import MapStyle.Number.Shortest
import MapStyle.Text.Characters
/-!
The characters that the text of a number can have, read or written.
-/
namespace MapStyle

namespace Text

theorem mem_dropWhile_or {p : Char → Bool} {c : Char} {cs : List Char} (member : c ∈ cs) :
    p c ∨ c ∈ cs.dropWhile p := by
  induction cs with
  | nil => simp at member
  | cons head rest ih =>
    rw [List.dropWhile_cons]
    split
    · next dropped =>
      rcases List.mem_cons.mp member with same | inside
      · exact Or.inl (same ▸ dropped)
      · exact ih inside
    · exact Or.inr member

/-- A character that stripping takes off is one of the class that is stripped. -/
theorem mem_stripBoth_or {p : Char → Bool} {c : Char} {cs : List Char} (member : c ∈ cs) :
    p c ∨ c ∈ stripBoth p cs := by
  rcases mem_dropWhile_or (p := p) member with stripped | inside
  · exact Or.inl stripped
  · rcases mem_dropWhile_or (p := p) (List.mem_reverse.mpr inside) with stripped | kept
    · exact Or.inl stripped
    · exact Or.inr (by simpa [stripBoth, dropEndWhile] using kept)

theorem mem_trim_or {c : Char} {s : String} (member : c ∈ s.toList) : isBlank c ∨ c ∈ (trim s).toList := by
  simpa [trim, strip] using mem_stripBoth_or (p := isBlank) member

end Text

namespace Number

def isTextChar (c : Char) : Bool := c.isDigit || c.isAlpha || c == '.' || c == '+' || c == '-'

theorem splitSign_chars {cs : List Char} (rest : ∀ c ∈ (Decimal.splitSign cs).2, isTextChar c) :
    ∀ c ∈ cs, isTextChar c := by
  unfold Decimal.splitSign at rest
  split at rest <;> simp_all [isTextChar]

theorem readExponent_chars {cs : List Char} {e : Int} (read : Decimal.readExponent? cs = some e) :
    ∀ c ∈ cs, isTextChar c := by
  cases cs with
  | nil => simp
  | cons c cs =>
    simp only [Decimal.readExponent?] at read
    split at read
    · simp at read
    · next isMark =>
      have mark : isTextChar c := by
        by_cases lower : c = 'e'
        · subst lower; decide
        · have upper : c = 'E' := by simpa [lower] using isMark
          subst upper; decide
      split at read
      · simp at read
      · next isDigits =>
        have digits : ∀ d ∈ (Decimal.splitSign cs).2, isTextChar d := by
          intro d member
          have := isDigits
          simp only [Bool.or_eq_true, Bool.not_eq_true', not_or, Bool.not_eq_false, List.all_eq_true] at this
          simp [isTextChar, this.2 d member]
        intro d member
        rcases List.mem_cons.mp member with same | inside
        · exact same ▸ mark
        · exact splitSign_chars digits d inside

theorem exponent_chars {rest : List Char} {missing : Bool} {build : Int → Decimal} {d : Decimal}
    (read : (if missing then none else (Decimal.readExponent? rest).map build) = some d) :
    ∀ c ∈ rest, isTextChar c := by
  split at read
  · simp at read
  · obtain ⟨e, exponent, -⟩ := Option.map_eq_some_iff.mp read
    exact readExponent_chars exponent

theorem readDecimal_chars {cs : List Char} {d : Decimal} (read : Decimal.read? cs = some d) :
    ∀ c ∈ cs, isTextChar c := by
  have digit : ∀ c : Char, c.isDigit → isTextChar c := fun c isDigit => by simp [isTextChar, isDigit]
  intro c member
  rcases Text.mem_dropWhile_or (p := Char.isDigit) member with whole | beyond
  · exact digit c whole
  · simp only [Decimal.read?] at read
    generalize cs.dropWhile Char.isDigit = rest at read beyond
    split at read
    · next ds =>
      rcases List.mem_cons.mp beyond with same | inside
      · subst same; decide
      · rcases Text.mem_dropWhile_or (p := Char.isDigit) inside with inPart | inExponent
        · exact digit c inPart
        · exact exponent_chars read c inExponent
    · exact exponent_chars read c beyond

theorem toLower_isAlpha {c : Char} (lower : c.toLower.isAlpha) : c.isAlpha := by
  by_cases upper : c.isUpper
  · exact Bool.or_eq_true_iff.mpr (Or.inl upper)
  · have same : c.toLower = c := by
      have : ¬ (c.val ≥ 'A'.val ∧ c.val ≤ 'Z'.val) := fun inside =>
        upper (decide_eq_true inside)
      exact dif_neg this
    exact same ▸ lower

theorem readWord_chars {cs : List Char} {number : Bool → Number}
    (read : readWord? (String.ofList (cs.map Char.toLower)) = some number) : ∀ c ∈ cs, isTextChar c := by
  have letters : ∀ c ∈ cs.map Char.toLower, c.isAlpha := by
    have isWord : cs.map Char.toLower ∈ ["inf".toList, "infinity".toList, "nan".toList] := by
      generalize cs.map Char.toLower = word at read
      rw [← String.toList_ofList (l := word)]
      generalize String.ofList word = text at read
      simp only [readWord?] at read
      simp only [List.mem_cons, String.toList_inj]
      grind
    revert isWord
    generalize cs.map Char.toLower = word
    intro isWord
    simp only [List.mem_cons, List.not_mem_nil, or_false] at isWord
    rcases isWord with rfl | rfl | rfl <;> exact List.all_eq_true.mp (by decide)
  intro c member
  have := toLower_isAlpha (letters _ (List.mem_map_of_mem member))
  simp [isTextChar, this]

theorem readChars_chars {cs : List Char} {number : Number} (read : readChars? cs = some number) :
    ∀ c ∈ cs, isTextChar c := by
  apply splitSign_chars
  simp only [readChars?] at read
  split at read
  · next decimal => exact readDecimal_chars decimal
  · obtain ⟨word, isWord, -⟩ := Option.map_eq_some_iff.mp read
    exact readWord_chars isWord

/-- Around a number there are blanks, and in it only digits, letters, signs and points. -/
theorem read_trim_chars {text : String} {number : Number} (read : read? (Text.trim text) = some number) :
    ∀ c ∈ text.toList, Text.isBlank c ∨ isTextChar c :=
  fun c member => (Text.mem_trim_or member).imp_right (readChars_chars read c)

theorem zeros_chars (n : Nat) : ∀ c ∈ (Decimal.zeros n).toList, isTextChar c := by
  intro c member
  rw [Decimal.zeros, String.toList_ofList] at member
  obtain rfl := List.eq_of_mem_replicate member
  decide

theorem withPoint_chars {digits : String} (each : ∀ c ∈ digits.toList, isTextChar c) (places : Nat) :
    ∀ c ∈ (Decimal.withPoint digits places).toList, isTextChar c := by
  have point : ∀ c ∈ ".".toList, isTextChar c := List.all_eq_true.mp (by decide)
  have front : ∀ c ∈ "0.".toList, isTextChar c := List.all_eq_true.mp (by decide)
  unfold Decimal.withPoint
  dsimp only
  split
  · simp only [String.toList_append, List.forall_mem_append]
    refine ⟨⟨fun c member => each c ?_, point⟩, fun c member => each c ?_⟩
    · exact List.mem_of_mem_take (by simpa using member)
    · exact List.mem_of_mem_drop (by simpa using member)
  · simp only [String.toList_append, List.forall_mem_append]
    exact ⟨⟨front, zeros_chars _⟩, each⟩

theorem positional_chars (d : Decimal) : ∀ c ∈ d.positional.toList, isTextChar c := by
  have digits : ∀ c ∈ (toString d.coefficient).toList, isTextChar c := by
    intro c member
    rw [Nat.toString_eq_ofList_toDigits, String.toList_ofList] at member
    simp [isTextChar, Nat.isDigit_of_mem_toDigits (by decide) (Nat.le_refl 10) member]
  unfold Decimal.positional
  dsimp only
  split
  · exact List.all_eq_true.mp (by decide)
  · split
    · rw [String.toList_append]
      exact List.forall_mem_append.mpr ⟨digits, zeros_chars _⟩
    · exact withPoint_chars digits _

/-- No number is written with anything but digits, letters, signs and points. -/
theorem text_chars (number : Number) : ∀ c ∈ number.text.toList, isTextChar c := by
  cases number with
  | nan => exact List.all_eq_true.mp (by decide)
  | infinite negative => cases negative <;> exact List.all_eq_true.mp (by decide)
  | finite negative steps =>
    have sign : ∀ c ∈ (if negative then "-" else "").toList, isTextChar c := by
      cases negative <;> exact List.all_eq_true.mp (by decide)
    rw [text, String.toList_append]
    exact List.forall_mem_append.mpr ⟨sign, positional_chars _⟩

end Number
end MapStyle
