import MapStyle.Proofs.Filter.Readding
import MapStyle.Renderer.Mapnik.Basic
/-!
Equalities as a set of filters and as Mapnik understands them. A set compares the texts of two values; Mapnik takes off
their quotes first and knows geometry types by their numbers too, so that it reads the same in texts that contradict each
other.
-/
namespace MapStyle

namespace Text

def escapedChar (c : Char) : List Char := if c = '\'' then ['\\', '\''] else [c]

theorem replaceChars_quote (cs : List Char) : replaceChars ['\''] ['\\', '\''] cs = cs.flatMap escapedChar := by
  induction cs with
  | nil => rw [replaceChars]; rfl
  | cons c rest ih =>
    rw [replaceChars, List.flatMap_cons]
    by_cases isQuote : c = '\''
    · subst isQuote
      simp [dropPrefix?, escapedChar, ih]
    · have apart : ('\'' == c) = false := beq_eq_false_iff_ne.mpr (Ne.symm isQuote)
      simp [dropPrefix?, apart, escapedChar, isQuote, ih]

theorem escaped_begins (cs : List Char) : ∀ rest, cs.flatMap escapedChar ≠ '\'' :: rest := by
  intro rest same
  cases cs with
  | nil => cases same
  | cons c others =>
    rw [List.flatMap_cons, escapedChar] at same
    split at same
    · simp at same
    · rename_i apart
      exact apart (by simpa using (List.cons_eq_cons.mp same).1)

theorem escaped_injective {a b : List Char} (same : a.flatMap escapedChar = b.flatMap escapedChar) : a = b := by
  have nonempty : ∀ c, escapedChar c ≠ [] := fun c => by unfold escapedChar; split <;> simp
  induction a generalizing b with
  | nil =>
    cases b with
    | nil => rfl
    | cons d others => exact absurd (List.append_eq_nil_iff.mp same.symm).1 (nonempty d)
  | cons c rest ih =>
    cases b with
    | nil => exact absurd (List.append_eq_nil_iff.mp same).1 (nonempty c)
    | cons d others =>
      rw [List.flatMap_cons, List.flatMap_cons] at same
      by_cases left : c = '\'' <;> by_cases right : d = '\'' <;>
        simp only [escapedChar, left, right, ↓reduceIte, List.cons_append, List.nil_append, List.cons.injEq, true_and] at same
      · rw [left, right, ih same]
      -- an escaped quote and a backslash before what would begin with a quote
      · exact absurd same.2.symm (escaped_begins others _)
      · exact absurd same.2 (escaped_begins rest _)
      · rw [same.1, ih same.2]

theorem unquote_quoted (text : String) : unquote ("\"" ++ text ++ "\"") = text := by
  have ends : isBlank '"' = false := rfl
  have whole : ("\"" ++ text ++ "\"").toList = '"' :: (text.toList ++ ['"']) := by simp
  have trimmed : stripBoth isBlank ('"' :: (text.toList ++ ['"'])) = '"' :: (text.toList ++ ['"']) := by
    simp [stripBoth, dropEndWhile, ends]
  rw [unquote, whole, unquoteChars, trimmed]
  simp [stripQuote?]

end Text

namespace Mapnik
open Text

theorem literal_injective {a b : String} (same : literal a = literal b) : a = b := by
  have chars := congrArg String.toList same
  simp only [literal, replace, String.toList_append, String.toList_ofList] at chars
  have inner := List.append_cancel_left (List.append_cancel_right chars)
  rw [show "'".toList = ['\''] from rfl, show "\\'".toList = ['\\', '\''] from rfl, replaceChars_quote, replaceChars_quote] at inner
  exact String.toList_inj.mp (escaped_injective inner)

theorem numeric_ne_literal {filter : Filter} (isNumeric : filter.numeric.isSome) (text : String) :
    filter.value ≠ literal text := by
  intro same
  obtain ⟨number, reads⟩ := Option.isSome_iff_exists.mp isNumeric
  have plain := Number.read_trim_chars reads '\'' (by simp [same, literal])
  revert plain
  decide

theorem filterValue_eq_iff {a b : Filter} : filterValue a = filterValue b ↔
    a.value = b.value ∨ a.numeric = none ∧ b.numeric = none ∧ unquote a.value = unquote b.value := by
  have alike : a.value = b.value → a.numeric = b.numeric := fun same => by rw [Filter.numeric, Filter.numeric, same]
  unfold filterValue
  cases left : a.numeric <;> cases right : b.numeric
  · simp only [Option.isSome_none, Bool.false_eq_true, ↓reduceIte, true_and]
    exact ⟨fun same => Or.inr (literal_injective same), fun same =>
      congrArg literal (same.elim (congrArg unquote) (fun contents => contents))⟩
  · have apart : b.value ≠ literal (unquote a.value) := numeric_ne_literal (by rw [right]; rfl) _
    have differ : a.value ≠ b.value := fun same => by simpa [left, right] using alike same
    simp [apart.symm, differ]
  · have apart : a.value ≠ literal (unquote b.value) := numeric_ne_literal (by rw [left]; rfl) _
    have differ : a.value ≠ b.value := fun same => by simpa [left, right] using alike same
    simp [apart, differ]
  · simp

theorem filterText_eq_iff {a b : Filter} (sameKey : a.key = b.key) (left : a.op = .equal) (right : b.op = .equal) :
    filterText a = filterText b ↔
      if a.key = "mapnik::geometry_type" then geometryType a.value = geometryType b.value
      else a.value = b.value ∨ a.numeric = none ∧ b.numeric = none ∧ unquote a.value = unquote b.value := by
  simp only [filterText, left, right, ← sameKey, String.append_right_inj, beq_iff_eq]
  split
  · rfl
  · exact filterValue_eq_iff

end Mapnik

namespace FilterSet

theorem ofFilters_equalities {a b : Filter} (sameKey : a.key = b.key) (left : a.op = .equal) (right : b.op = .equal) :
    ofFilters? [a, b] = none ↔ a.value ≠ b.value := by
  have there : (empty.add a).get? (Filter.keySlot b.key .equal) = some a := by
    rw [get?_eq_some_iff]
    simp [add, left, mem_insert, Filter.slot, Filter.isPerValue, sameKey]
  have verdict : (empty.add a).judge b = if a.value = b.value then .implied else .contradicts := by
    simp only [judge, right, there]
  simp only [ofFilters?, List.foldlM_cons, List.foldlM_nil, conjoin?, judge_empty]
  by_cases same : a.value = b.value <;> simp [verdict, same]

end FilterSet

/-- The text of a word, of a text in quotes or of a number, which no scope has a part in. -/
def Value.written? : Value → Option String
  | .keyword word => some word
  | .quoted text => some ("\"" ++ text ++ "\"")
  | .number value unit => some (value.text ++ unit.getD "")
  | _ => none

theorem Filter.resolve_written {expr : Expression} {text : String} (written : expr.value.written? = some text) (key : String)
    (op : Comparison) (scope : Scope) : Filter.resolve key op expr scope = .ok ⟨key, op, text, some expr⟩ := by
  unfold Filter.resolve Scope.evaluate Scope.evaluateAt
  revert written
  cases expr.value <;> intro written <;> cases written <;> rfl

namespace Mapnik

/-- Filters that contradict each other in a set although they are rendered alike. -/
def Misjudged (a b : Filter) : Prop :=
  FilterSet.ofFilters? [a, b] = none ∧ renderer.filterText a = renderer.filterText b

theorem misjudged_iff {a b : Filter} (sameKey : a.key = b.key) (left : a.op = .equal) (right : b.op = .equal) :
    Misjudged a b ↔ a.value ≠ b.value ∧
      if a.key = "mapnik::geometry_type" then geometryType a.value = geometryType b.value
      else a.numeric = none ∧ b.numeric = none ∧ Text.unquote a.value = Text.unquote b.value := by
  have alike : renderer.filterText a = renderer.filterText b ↔ filterText a = filterText b :=
    ⟨fun same => Except.ok.inj same, fun same => congrArg Except.ok same⟩
  rw [Misjudged, FilterSet.ofFilters_equalities sameKey left right, alike, filterText_eq_iff sameKey left right]
  refine and_congr_right fun differ => ?_
  split
  · rfl
  · exact or_iff_right differ

theorem numeric_quoted {filter : Filter} {text : String} (isQuoted : filter.value = "\"" ++ text ++ "\"") :
    filter.numeric = none := by
  rw [Option.eq_none_iff_forall_ne_some]
  intro number reads
  have plain := Number.read_trim_chars reads '"' (by simp [isQuoted])
  revert plain
  decide

theorem not_misjudged_quoted {a b : Filter} {text other : String} (sameKey : a.key = b.key) (left : a.op = .equal)
    (right : b.op = .equal) (ordinary : a.key ≠ "mapnik::geometry_type") (quotedLeft : a.value = "\"" ++ text ++ "\"")
    (quotedRight : b.value = "\"" ++ other ++ "\"") : ¬ Misjudged a b := by
  rw [misjudged_iff sameKey left right, if_neg ordinary, quotedLeft, quotedRight, Text.unquote_quoted, Text.unquote_quoted]
  rintro ⟨differ, -, -, same⟩
  exact differ (by rw [same])

theorem misjudged_word_iff {a b : Filter} {text : String} (sameKey : a.key = b.key) (left : a.op = .equal)
    (right : b.op = .equal) (ordinary : a.key ≠ "mapnik::geometry_type") (bare : Text.unquote a.value = a.value)
    (isQuoted : b.value = "\"" ++ text ++ "\"") : Misjudged a b ↔ a.value = text ∧ a.numeric = none := by
  have notNumber : b.numeric = none := numeric_quoted isQuoted
  rw [misjudged_iff sameKey left right, if_neg ordinary, bare, isQuoted, Text.unquote_quoted]
  simp only [notNumber, true_and]
  constructor
  · rintro ⟨-, word, same⟩
    exact ⟨same, word⟩
  · rintro ⟨same, word⟩
    refine ⟨fun equal => ?_, word, same⟩
    have sizes := congrArg (fun text => text.toList.length) (same.symm.trans equal)
    simp at sizes
    omega

/-- Words, texts in quotes and numbers as the values of equalities on one key. Two of them contradict each other and are
rendered alike just if their texts differ while they stand for one geometry type, or on another key, where they differ by
the quotes and neither is a number. So it is with a word and itself in quotes; of two texts in quotes it never is. -/
theorem misjudged_written_iff {scope : Scope} {key left right : String} {first second : Expression}
    (writtenLeft : first.value.written? = some left) (writtenRight : second.value.written? = some right) :
    ∃ a b, Filter.resolve key .equal first scope = .ok a ∧ Filter.resolve key .equal second scope = .ok b ∧
      (Misjudged a b ↔ left ≠ right ∧
        if key = "mapnik::geometry_type" then geometryType left = geometryType right
        else a.numeric = none ∧ b.numeric = none ∧ Text.unquote left = Text.unquote right) ∧
      (key ≠ "mapnik::geometry_type" → ∀ text, second.value = .quoted text →
        (∀ other, first.value = .quoted other → ¬ Misjudged a b) ∧
        (Text.unquote left = left → (Misjudged a b ↔ left = text ∧ a.numeric = none))) := by
  refine ⟨_, _, Filter.resolve_written writtenLeft key .equal scope, Filter.resolve_written writtenRight key .equal scope,
    misjudged_iff rfl rfl rfl, fun ordinary text isQuoted => ⟨fun other alsoQuoted => ?_, fun bare => ?_⟩⟩
  · rw [alsoQuoted] at writtenLeft
    rw [isQuoted] at writtenRight
    exact not_misjudged_quoted rfl rfl rfl ordinary (Option.some.inj writtenLeft).symm (Option.some.inj writtenRight).symm
  · rw [isQuoted] at writtenRight
    exact misjudged_word_iff rfl rfl rfl ordinary bare (Option.some.inj writtenRight).symm

theorem misjudged_written_iff_main :
    (∃ a b, Filter.resolve "type" .equal ⟨0, .keyword "main", ⟨"t.mss", 1⟩⟩ Scope.empty = .ok a ∧
      Filter.resolve "type" .equal ⟨1, .quoted "main", ⟨"t.mss", 1⟩⟩ Scope.empty = .ok b ∧ Misjudged a b) ∧
    ∃ a b, Filter.resolve "mapnik::geometry_type" .equal ⟨0, .number (Number.ofNat 1) none, ⟨"t.mss", 1⟩⟩ Scope.empty = .ok a ∧
      Filter.resolve "mapnik::geometry_type" .equal ⟨1, .keyword "point", ⟨"t.mss", 1⟩⟩ Scope.empty = .ok b ∧
      Misjudged a b := by
  constructor
  · obtain ⟨a, b, resolvesLeft, resolvesRight, -, inQuotes⟩ := @misjudged_written_iff Scope.empty "type" _ _
      ⟨0, .keyword "main", ⟨"t.mss", 1⟩⟩ ⟨1, .quoted "main", ⟨"t.mss", 1⟩⟩ rfl rfl
    refine ⟨a, b, resolvesLeft, resolvesRight, ((inQuotes (by decide) "main" rfl).2 (by decide)).mpr ⟨rfl, ?_⟩⟩
    obtain rfl := Except.ok.inj resolvesLeft
    decide
  · obtain ⟨a, b, resolvesLeft, resolvesRight, general, -⟩ := @misjudged_written_iff Scope.empty "mapnik::geometry_type" "1" _
      ⟨0, .number (Number.ofNat 1) none, ⟨"t.mss", 1⟩⟩ ⟨1, .keyword "point", ⟨"t.mss", 1⟩⟩ (by decide +kernel) rfl
    exact ⟨a, b, resolvesLeft, resolvesRight, general.mpr ⟨by decide, by rw [if_pos rfl]; decide⟩⟩

end Mapnik
end MapStyle
