import MapStyle.Proofs.Renderer.Equality
/-!
Literals read back, with the backslash as the escape of whatever character follows it. Only quotes are escaped when a literal
is written, so that a backslash of the text itself hides what is behind it: the next character, or the quote at the end.
-/
namespace MapStyle

namespace Text

/-- What stands before the quote that ends a literal, and what follows that quote. -/
def readQuoted? : List Char → Option (List Char × List Char)
  | '\'' :: rest => some ([], rest)
  | '\\' :: c :: rest => (readQuoted? rest).map fun read => (c :: read.1, read.2)
  | c :: rest => if c = '\\' then none else (readQuoted? rest).map fun read => (c :: read.1, read.2)
  | [] => none

def readLiteral? : List Char → Option (List Char × List Char)
  | '\'' :: rest => readQuoted? rest
  | _ => none

/-- The text without each backslash that stands for the character after it. -/
def unescape : List Char → List Char
  | '\\' :: c :: rest => c :: unescape rest
  | c :: rest => c :: unescape rest
  | [] => []

def backslashes (text : List Char) : Nat := (text.reverse.takeWhile (· == '\\')).length

/-- Behind each backslash that is not escaped itself stands a character that is no quote. -/
def Closes (text : List Char) : Prop :=
  ∀ front back, text = front ++ '\\' :: back → Even (backslashes front) → ∃ c rest, back = c :: rest ∧ c ≠ '\''

theorem readQuoted_plain {c : Char} (rest : List Char) (noBackslash : c ≠ '\\') (noQuote : c ≠ '\'') :
    readQuoted? (c :: rest) = (readQuoted? rest).map fun read => (c :: read.1, read.2) := by
  rw [readQuoted?.eq_def]
  split <;> simp_all

theorem readQuoted_rest {cs text rest : List Char} (reads : readQuoted? cs = some (text, rest)) : rest.length < cs.length := by
  induction cs using readQuoted?.induct generalizing text with
  | case1 behind =>
    obtain ⟨-, rfl⟩ := Prod.mk.inj (Option.some.inj reads)
    exact Nat.lt_succ_self _
  | case2 c behind ih =>
    obtain ⟨read, readsBehind, same⟩ := Option.map_eq_some_iff.mp reads
    obtain ⟨-, rfl⟩ := Prod.mk.inj same
    have := ih readsBehind
    simp only [List.length_cons]
    omega
  | case3 behind _ => simp [readQuoted?] at reads
  | case4 c behind noQuote noPair noBackslash ih =>
    rw [readQuoted_plain behind noBackslash noQuote] at reads
    obtain ⟨read, readsBehind, same⟩ := Option.map_eq_some_iff.mp reads
    obtain ⟨-, rfl⟩ := Prod.mk.inj same
    exact Nat.lt_succ_of_lt (ih readsBehind)
  | case5 => cases reads

theorem backslashes_cons (c : Char) (text : List Char) :
    backslashes (c :: text) = if c = '\\' ∧ backslashes text = text.length then text.length + 1 else backslashes text := by
  unfold backslashes
  rw [List.reverse_cons, List.takeWhile_append, List.length_reverse]
  by_cases all : (text.reverse.takeWhile (· == '\\')).length = text.length <;> by_cases isBackslash : c = '\\' <;>
    simp [all, isBackslash]

theorem backslashes_le (text : List Char) : backslashes text ≤ text.length := by
  have le := (List.takeWhile_sublist (l := text.reverse) (· == '\\')).length_le
  rwa [List.length_reverse] at le

theorem even_backslashes_pair (c : Char) (text : List Char) : Even (backslashes ('\\' :: c :: text)) ↔ Even (backslashes text) := by
  have le := backslashes_le text
  rw [backslashes_cons, backslashes_cons, List.length_cons]
  by_cases all : c = '\\' ∧ backslashes text = text.length
  · rw [if_pos all, if_pos ⟨rfl, rfl⟩, all.2]
    simp [Nat.even_add_one]
  · rw [if_neg all, if_neg (by omega)]

theorem closes_nil : Closes [] := by
  intro front back same
  simp at same

theorem not_closes_last : ¬ Closes ['\\'] := by
  intro closes
  obtain ⟨c, rest, same, -⟩ := closes [] [] rfl ⟨0, rfl⟩
  cases same

theorem closes_cons {c : Char} {text : List Char} (noBackslash : c ≠ '\\') : Closes (c :: text) ↔ Closes text := by
  have alike : ∀ front, backslashes (c :: front) = backslashes front := fun front => by
    rw [backslashes_cons, if_neg fun both => noBackslash both.1]
  constructor
  · intro closes front back same even
    exact closes (c :: front) back (by rw [same, List.cons_append]) (by rwa [alike])
  · intro closes front back same even
    cases front with
    | nil => exact absurd (List.cons_eq_cons.mp same).1 noBackslash
    | cons d front =>
      obtain ⟨rfl, sameRest⟩ := List.cons_eq_cons.mp same
      exact closes front back sameRest (by rwa [alike] at even)

theorem closes_pair {c : Char} {text : List Char} : Closes ('\\' :: c :: text) ↔ c ≠ '\'' ∧ Closes text := by
  constructor
  · intro closes
    constructor
    · obtain ⟨d, rest, same, noQuote⟩ := closes [] (c :: text) rfl ⟨0, rfl⟩
      rwa [(List.cons_eq_cons.mp same).1]
    · intro front back same even
      exact closes ('\\' :: c :: front) back (by rw [same]; rfl) ((even_backslashes_pair c front).mpr even)
  · rintro ⟨noQuote, closes⟩ front back same even
    cases front with
    | nil => exact ⟨c, text, (List.cons_eq_cons.mp same).2.symm, noQuote⟩
    | cons d front =>
      simp only [List.cons_append, List.cons.injEq] at same
      obtain ⟨rfl, same⟩ := same
      cases front with
      -- the second of two backslashes is escaped by the first
      | nil => exact absurd even (by decide)
      | cons e front =>
        simp only [List.cons_append, List.cons.injEq] at same
        exact closes front back same.2 ((even_backslashes_pair e front).mp even)

theorem read_cons_iff {c : Char} {read : Option (List Char × List Char)} {whole contents rest : List Char} {closes : Prop}
    (reads : ∀ {contents}, read = some (contents, rest) ↔ closes ∧ contents = whole) :
    (read.map fun read => (c :: read.1, read.2)) = some (contents, rest) ↔ closes ∧ contents = c :: whole := by
  rw [Option.map_eq_some_iff]
  constructor
  · rintro ⟨⟨behind, _⟩, found, same⟩
    obtain ⟨rfl, rfl⟩ := Prod.mk.inj same
    obtain ⟨ends, rfl⟩ := reads.mp found
    exact ⟨ends, rfl⟩
  · rintro ⟨ends, rfl⟩
    exact ⟨(whole, rest), reads.mpr ⟨ends, rfl⟩, rfl⟩

/-- A literal ends at its last quote just if its text closes. -/
theorem readQuoted_escaped_iff {text contents rest : List Char} :
    readQuoted? (text.flatMap escapedChar ++ '\'' :: rest) = some (contents, rest) ↔
      Closes text ∧ contents = unescape text := by
  induction text using unescape.induct generalizing contents with
  | case1 c behind ih =>
    rw [closes_pair, unescape, List.flatMap_cons, List.flatMap_cons]
    by_cases isQuote : c = '\''
    · -- the backslash of the text escapes the one before the quote
      have written : escapedChar '\\' ++ (escapedChar c ++ behind.flatMap escapedChar) ++ '\'' :: rest =
          '\\' :: '\\' :: '\'' :: (behind.flatMap escapedChar ++ '\'' :: rest) := by simp [escapedChar, isQuote]
      rw [written, readQuoted?, readQuoted?]
      refine iff_of_false (fun early => ?_) fun closes => closes.1.1 isQuote
      have sizes := congrArg List.length (Prod.mk.inj (Option.some.inj early)).2
      simp only [List.length_append, List.length_cons] at sizes
      omega
    · have written : escapedChar '\\' ++ (escapedChar c ++ behind.flatMap escapedChar) ++ '\'' :: rest =
          '\\' :: c :: (behind.flatMap escapedChar ++ '\'' :: rest) := by simp [escapedChar, isQuote]
      rw [written, readQuoted?, read_cons_iff ih, and_iff_right isQuote]
  | case2 c behind noPair ih =>
    by_cases isBackslash : c = '\\'
    · -- with nothing behind it, it hides the last quote
      subst isBackslash
      cases behind with
      | cons d behind => exact absurd rfl (noPair d behind rfl)
      | nil =>
        refine iff_of_false (fun reads => ?_) fun closes => not_closes_last closes.1
        obtain ⟨⟨_, _⟩, beyond, same⟩ := Option.map_eq_some_iff.mp reads
        obtain ⟨-, rfl⟩ := Prod.mk.inj same
        exact absurd (readQuoted_rest beyond) (Nat.lt_irrefl _)
    · rw [closes_cons isBackslash, unescape, List.flatMap_cons, List.append_assoc]
      · by_cases isQuote : c = '\''
        · have written : escapedChar c = ['\\', c] := by simp [escapedChar, isQuote]
          rw [written, List.cons_append, List.cons_append, readQuoted?, List.nil_append, read_cons_iff ih]
        · have written : escapedChar c = [c] := by simp [escapedChar, isQuote]
          rw [written, List.cons_append, List.nil_append, readQuoted_plain _ isBackslash isQuote, read_cons_iff ih]
      · exact noPair
  | case3 => simp [readQuoted?, closes_nil, unescape, eq_comm]

theorem unescape_length (text : List Char) : (unescape text).length ≤ text.length := by
  induction text using unescape.induct with
  | case1 c behind ih =>
    rw [unescape]
    simp only [List.length_cons]
    omega
  | case2 c behind noPair ih =>
    rw [unescape]
    · exact Nat.succ_le_succ ih
    · exact noPair
  | case3 => exact Nat.le_refl _

theorem unescape_eq_self_iff {text : List Char} (closes : Closes text) : unescape text = text ↔ '\\' ∉ text := by
  induction text using unescape.induct with
  | case1 c behind ih =>
    refine iff_of_false (fun same => ?_) (by simp)
    have sizes := congrArg List.length same
    have le := unescape_length behind
    simp only [unescape, List.length_cons] at sizes
    omega
  | case2 c behind noPair ih =>
    by_cases isBackslash : c = '\\'
    · subst isBackslash
      cases behind with
      | cons d behind => exact absurd rfl (noPair d behind rfl)
      | nil => exact absurd closes not_closes_last
    · rw [unescape, List.cons.injEq, ih ((closes_cons isBackslash).mp closes)]
      · simp [Ne.symm isBackslash]
      · exact noPair
  | case3 => simp [unescape]

theorem closes_of_not_mem {text : List Char} (plain : '\\' ∉ text) : Closes text := by
  intro front back same
  simp [same] at plain

end Text

namespace Mapnik
open Text
variable {filter : Filter}

theorem literal_toList (text : String) : (literal text).toList = '\'' :: (text.toList.flatMap escapedChar ++ ['\'']) := by
  simp only [literal, replace, String.toList_append, String.toList_ofList]
  rw [show "'".toList = ['\''] from rfl, show "\\'".toList = ['\\', '\''] from rfl, replaceChars_quote]
  rfl

theorem readLiteral_literal_iff {text : String} {contents rest : List Char} :
    readLiteral? ((literal text).toList ++ rest) = some (contents, rest) ↔
      Closes text.toList ∧ contents = unescape text.toList := by
  rw [literal_toList, List.cons_append, List.append_assoc, List.singleton_append, readLiteral?, readQuoted_escaped_iff]

theorem readLiteral_numeric (isNumeric : filter.numeric.isSome) (contents rest : List Char) :
    readLiteral? (filter.value.toList ++ rest) ≠ some (contents, rest) := by
  intro reads
  obtain ⟨number, isNumber⟩ := Option.isSome_iff_exists.mp isNumeric
  have plain := Number.read_trim_chars isNumber
  cases chars : filter.value.toList with
  | nil =>
    rw [chars, List.nil_append] at reads
    unfold readLiteral? at reads
    split at reads
    · have shorter := readQuoted_rest reads
      simp only [List.length_cons] at shorter
      omega
    · cases reads
  | cons c behind =>
    rw [chars, List.cons_append] at reads
    unfold readLiteral? at reads
    split at reads
    · rename_i same
      have isPlain := plain c (by simp [chars])
      rw [(List.cons_eq_cons.mp same).1] at isPlain
      exact absurd isPlain (by decide)
    · cases reads

theorem readLiteral_filterValue_iff {contents rest : List Char} :
    readLiteral? ((filterValue filter).toList ++ rest) = some (contents, rest) ↔
      filter.numeric = none ∧ Closes (unquote filter.value).toList ∧ contents = unescape (unquote filter.value).toList := by
  unfold filterValue
  cases isNumeric : filter.numeric with
  | some number =>
    rw [Option.isSome_some, if_pos rfl]
    exact iff_of_false (readLiteral_numeric (by rw [isNumeric]; rfl) contents rest) (by simp)
  | none =>
    rw [Option.isSome_none, if_neg Bool.false_ne_true, readLiteral_literal_iff]
    exact (and_iff_right rfl).symm

/-- Filters on ordinary keys. What stands for the value is a literal that ends at its last quote just if the value is no number
and, without its quotes, has a character that is no quote behind every backslash that is not escaped itself; it is read back as
the value without its quotes just if the value is no number and no backslash is in it. A text that was written in quotes is
never a number, and stands without just these quotes. -/
theorem filterText_literal_iff (ordinary : filter.key ≠ "mapnik::geometry_type") :
    renderer.filterText filter = .ok (match filter.op with
        | .regex => "[" ++ filter.key ++ "]" ++ ".match(" ++ filterValue filter ++ ")"
        | op => "[" ++ filter.key ++ "]" ++ " " ++ op.symbol ++ " " ++ filterValue filter) ∧
      (∀ rest, (∃ contents, readLiteral? ((filterValue filter).toList ++ rest) = some (contents, rest)) ↔
        filter.numeric = none ∧ Closes (unquote filter.value).toList) ∧
      (∀ rest, readLiteral? ((filterValue filter).toList ++ rest) = some ((unquote filter.value).toList, rest) ↔
        filter.numeric = none ∧ '\\' ∉ (unquote filter.value).toList) ∧
      ∀ scope place text, Scope.evaluateAt scope (.quoted text) place = .ok filter.value →
        filter.numeric = none ∧ unquote filter.value = text := by
  refine ⟨?_, fun rest => ?_, fun rest => ?_, fun scope place text written => ?_⟩
  · refine congrArg Except.ok ?_
    unfold filterText
    cases filter.op <;> simp only [beq_iff_eq, ordinary, if_false]
  · constructor
    · rintro ⟨contents, reads⟩
      obtain ⟨isText, closes, -⟩ := readLiteral_filterValue_iff.mp reads
      exact ⟨isText, closes⟩
    · rintro ⟨isText, closes⟩
      exact ⟨_, readLiteral_filterValue_iff.mpr ⟨isText, closes, rfl⟩⟩
  · rw [readLiteral_filterValue_iff]
    refine and_congr_right fun _ => ⟨?_, fun plain => ?_⟩
    · rintro ⟨closes, same⟩
      exact (unescape_eq_self_iff closes).mp same.symm
    · have closes := closes_of_not_mem plain
      exact ⟨closes, ((unescape_eq_self_iff closes).mpr plain).symm⟩
  · have isQuoted : filter.value = "\"" ++ text ++ "\"" := (Except.ok.inj written).symm
    exact ⟨numeric_quoted isQuoted, by rw [isQuoted, unquote_quoted]⟩

def named (text : String) : Filter := Filter.ofText "name" .equal ("\"" ++ text ++ "\"")

theorem filterText_literal_iff_names :
    readLiteral? ((filterValue (named "O'Neil")).toList ++ [')']) = some ("O'Neil".toList, [')']) ∧
      (∀ contents, readLiteral? ((filterValue (named "a\\")).toList ++ [')']) ≠ some (contents, [')'])) ∧
      (∀ contents, readLiteral? ((filterValue (named "a\\'")).toList ++ [')']) ≠ some (contents, [')'])) ∧
      ∀ contents, readLiteral? ((filterValue (Filter.ofText "name" .equal "inf")).toList ++ [')']) ≠ some (contents, [')']) := by
  have ordinary : ∀ text, (named text).key ≠ "mapnik::geometry_type" := fun _ => (by decide : "name" ≠ "mapnik::geometry_type")
  have inQuotes : ∀ text, (named text).numeric = none ∧ unquote (named text).value = text := fun text =>
    (filterText_literal_iff (ordinary text)).2.2.2 Scope.empty ⟨"t.mss", 1⟩ text rfl
  refine ⟨?_, fun contents reads => ?_, fun contents reads => ?_, fun contents reads => ?_⟩
  · obtain ⟨isText, contents⟩ := inQuotes "O'Neil"
    have reads := ((filterText_literal_iff (ordinary "O'Neil")).2.2.1 [')']).mpr
    rw [contents] at reads
    exact reads ⟨isText, by decide⟩
  · obtain ⟨-, closes⟩ := ((filterText_literal_iff (ordinary "a\\")).2.1 [')']).mp ⟨contents, reads⟩
    rw [(inQuotes "a\\").2] at closes
    exact not_closes_last ((closes_cons (by decide)).mp closes)
  · obtain ⟨-, closes⟩ := ((filterText_literal_iff (ordinary "a\\'")).2.1 [')']).mp ⟨contents, reads⟩
    rw [(inQuotes "a\\'").2] at closes
    exact (closes_pair.mp ((closes_cons (by decide)).mp closes)).1 rfl
  · have word : (Filter.ofText "name" .equal "inf").key ≠ "mapnik::geometry_type" := by decide
    obtain ⟨isText, -⟩ := ((filterText_literal_iff word).2.1 [')']).mp ⟨contents, reads⟩
    exact absurd isText (by decide)

end Mapnik
end MapStyle
