import Mathlib.Data.List.Forall2
import MapStyle.Proofs.Sheet.Cuts
import MapStyle.Sheet.LineComment
/-!
Rows. Without its line comments a text has the same line feeds, and each of its rows begins the one of the source. Lines end
with more than line feeds, so a row that is cut in front of a form feed or a lone carriage return has fewer of them.
-/
namespace MapStyle
namespace Text

def rows (text : List Char) : List (List Char) := splitBy (· == '\n') text

/-- The rows of a text that ends within another, or with it. -/
inductive Begins : (front rows : List (List Char)) → Prop where
  | last {part row : List Char} {below : List (List Char)} (begins : part <+: row) : Begins [part] (row :: below)
  | row {row : List Char} {front below : List (List Char)} (begins : Begins front below) : Begins (row :: front) (row :: below)

/-- The text of `source` up to the place in it that is as far down as the end of `front`, and as far right. -/
def upTo : (source front : List (List Char)) → List Char
  | row :: source, _ :: next :: front => row ++ '\n' :: upTo source (next :: front)
  | _, [last] => last
  | _, _ => []

section rows
variable {text front : List Char} {c : Char}

theorem rows_ne_nil (text : List Char) : rows text ≠ [] := splitBy_ne_nil _ text

theorem rows_lineFeed (text : List Char) : rows ('\n' :: text) = [] :: rows text := rfl

theorem rows_cons (noBreak : c ≠ '\n') (text : List Char) :
    ∃ row below, rows text = row :: below ∧ rows (c :: text) = (c :: row) :: below := by
  cases found : splitBy (· == '\n') text with
  | nil => exact absurd found (splitBy_ne_nil _ _)
  | cons row below => exact ⟨row, below, found, by rw [rows, splitBy, if_neg (by simpa using noBreak), found]⟩

theorem length_rows (text : List Char) : (rows text).length = text.count '\n' + 1 := by
  induction text with
  | nil => rfl
  | cons c text ih =>
    by_cases isBreak : c = '\n'
    · subst isBreak
      rw [rows_lineFeed, List.length_cons, ih, List.count_cons_self]
    · obtain ⟨row, below, found, longer⟩ := rows_cons isBreak text
      rw [longer, List.length_cons, ← List.length_cons (a := row), ← found, ih, List.count_cons_of_ne isBreak]

theorem intercalate_rows (text : List Char) : ['\n'].intercalate (rows text) = text := by
  induction text with
  | nil => rfl
  | cons c text ih =>
    by_cases isBreak : c = '\n'
    · subst isBreak
      obtain ⟨row, below, found⟩ := List.exists_cons_of_ne_nil (rows_ne_nil text)
      rw [rows_lineFeed, found, List.intercalate_cons_cons, ← found, ih]
      rfl
    · obtain ⟨row, below, found, longer⟩ := rows_cons isBreak text
      rw [found] at ih
      rw [longer]
      cases below <;> simpa using ih

theorem begins_rows (isPrefix : front <+: text) : Begins (rows front) (rows text) := by
  induction front generalizing text with
  | nil =>
    obtain ⟨row, below, found⟩ := List.exists_cons_of_ne_nil (rows_ne_nil text)
    rw [found]
    exact .last List.nil_prefix
  | cons c front ih =>
    obtain ⟨rest, rfl⟩ := isPrefix
    have later := ih (List.prefix_append front rest)
    rw [List.cons_append]
    by_cases isBreak : c = '\n'
    · subst isBreak
      exact .row later
    · obtain ⟨part, more, found, longer⟩ := rows_cons isBreak front
      obtain ⟨row, below, foundText, longerText⟩ := rows_cons isBreak (front ++ rest)
      rw [found, foundText] at later
      rw [longer, longerText]
      cases later with
      | last begins => exact .last (List.cons_prefix_cons.mpr ⟨rfl, begins⟩)
      | row begins => exact .row begins

end rows

section upTo
variable {front kept source : List (List Char)} {c : Char}

theorem Begins.ne_nil (begins : Begins front kept) : front ≠ [] := by
  cases begins <;> exact List.cons_ne_nil _ _

theorem upTo_self (begins : Begins front kept) : upTo kept front = ['\n'].intercalate front := by
  induction begins with
  | last begins => simp [upTo]
  | @row row front below begins ih =>
    obtain ⟨next, more, rfl⟩ := List.exists_cons_of_ne_nil begins.ne_nil
    rw [upTo, ih, List.intercalate_cons_cons]
    simp

theorem upTo_begins (begins : Begins front kept) (prefixes : List.Forall₂ (· <+: ·) kept source) :
    upTo source front <+: ['\n'].intercalate source := by
  induction begins generalizing source with
  | @last part row below begins =>
    obtain ⟨whole, others, isPrefix, -, rfl⟩ := List.forall₂_cons_left_iff.mp prefixes
    have inRow : part <+: whole := begins.trans isPrefix
    cases others with
    | nil => simpa [upTo] using inRow
    | cons next others =>
      rw [List.intercalate_cons_cons]
      exact (inRow.trans (List.prefix_append _ _)).trans (List.prefix_append _ _)
  | @row row front below begins ih =>
    obtain ⟨whole, others, isPrefix, rest, rfl⟩ := List.forall₂_cons_left_iff.mp prefixes
    have later := ih rest
    obtain ⟨next, more, rfl⟩ := List.exists_cons_of_ne_nil begins.ne_nil
    cases begins <;> cases rest <;>
    · rw [upTo, List.intercalate_cons_cons]
      simpa using later

theorem upTo_last (source : List (List Char)) (last : List Char) : upTo source [last] = last := by
  cases source <;> rfl

theorem upTo_snoc (noBreak : c ≠ '\n') (front : List Char) :
    ∀ source : List (List Char), (rows front).length ≤ source.length →
      upTo source (rows (front ++ [c])) = upTo source (rows front) ++ [c] := by
  induction front with
  | nil =>
    intro source _
    obtain ⟨row, below, found, longer⟩ := rows_cons noBreak []
    obtain ⟨rfl, rfl⟩ := List.cons.inj found
    rw [List.nil_append, longer, upTo_last]
    exact congrArg (· ++ [c]) (upTo_last source []).symm
  | cons d front ih =>
    intro source enough
    by_cases isBreak : d = '\n'
    · subst isBreak
      obtain ⟨row, below, rfl⟩ := List.exists_cons_of_length_pos (Nat.zero_lt_of_lt enough)
      have later := ih below (Nat.le_of_succ_le_succ enough)
      obtain ⟨part, more, found⟩ := List.exists_cons_of_ne_nil (rows_ne_nil front)
      obtain ⟨partNext, moreNext, foundNext⟩ := List.exists_cons_of_ne_nil (rows_ne_nil (front ++ [c]))
      rw [found, foundNext] at later
      rw [List.cons_append, rows_lineFeed, rows_lineFeed, found, foundNext, upTo, upTo, later, List.append_assoc,
        List.cons_append]
    · have sameLength : (rows (front ++ [c])).length = (rows front).length := by
        rw [length_rows, length_rows, List.count_append, List.count_singleton, if_neg (by simpa using noBreak), Nat.add_zero]
      obtain ⟨part, more, found, longer⟩ := rows_cons isBreak front
      obtain ⟨partNext, moreNext, foundNext, longerNext⟩ := rows_cons isBreak (front ++ [c])
      rw [longer, List.length_cons, ← List.length_cons (a := part), ← found] at enough
      have later := ih source enough
      rw [found, foundNext] at later sameLength
      rw [List.cons_append, longer, longerNext]
      cases more with
      | nil =>
        obtain rfl : moreNext = [] := List.eq_nil_of_length_eq_zero (Nat.succ.inj sameLength)
        rw [upTo_last, upTo_last] at later ⊢
        rw [later, List.cons_append]
      | cons next more =>
        -- the row of the place is further down, so the first row of the front does not matter
        obtain ⟨nextLonger, moreNext, rfl⟩ : ∃ row rest, moreNext = row :: rest :=
          List.exists_cons_of_length_pos (Nat.lt_of_lt_of_eq (Nat.succ_pos _) (Nat.succ.inj sameLength).symm)
        rw [found] at enough
        obtain ⟨row, below, rfl⟩ := List.exists_cons_of_length_pos (Nat.lt_of_lt_of_le (Nat.succ_pos _) enough)
        exact later

/-- What stands at a place of a text that is kept, row by row, from the start, stands at the place in the source as well. -/
theorem getElem?_upTo {kept source : List Char} {place : Nat}
    (prefixes : List.Forall₂ (· <+: ·) (rows kept) (rows source)) (noBreak : c ≠ '\n')
    (stands : kept[place]? = some c) : source[(upTo (rows source) (rows (kept.take place))).length]? = some c := by
  obtain ⟨inside, isChar⟩ := List.getElem?_eq_some_iff.mp stands
  have further : kept.take (place + 1) = kept.take place ++ [c] := by rw [List.take_succ_eq_append_getElem inside, isChar]
  have enough : (rows (kept.take place)).length ≤ (rows source).length := by
    rw [← prefixes.length_eq, length_rows, length_rows]
    exact Nat.succ_le_succ ((List.take_sublist _ _).count_le _)
  have begun : kept.take (place + 1) <+: kept := List.take_prefix (place + 1) kept
  obtain ⟨rest, whole⟩ := upTo_begins (begins_rows begun) prefixes
  rw [intercalate_rows, further, upTo_snoc noBreak _ _ enough, List.append_assoc] at whole
  generalize upTo (rows source) (rows (kept.take place)) = front at whole ⊢
  rw [← whole, List.getElem?_append_right (Nat.le_refl _), Nat.sub_self]
  rfl

end upTo
end Text

namespace Scan
open Text
variable {kept row dropped front back : List Char} {c : Char}

theorem lineBreaks_row (row below : List Char) :
    lineBreaks (row ++ '\n' :: below) = lineBreaks (row ++ ['\n']) + lineBreaks below := by
  have together : ¬ Parted (row ++ ['\n']) below := by simp [Parted]
  rw [← lineBreaks_append together, List.append_assoc]
  rfl

theorem one_le_lineBreaks (row : List Char) : 1 ≤ lineBreaks (row ++ ['\n']) := by
  induction row with
  | nil => decide
  | cons c row ih => exact Nat.le_add_left_of_le ih

theorem endsLine_eq_false {next : Option Char} (noFeed : c ≠ '\n') :
    endsLine c next = false ↔ c ≠ '\x0c' ∧ (c = '\r' → next = some '\n') := by
  by_cases isReturn : c = '\r'
  · subst isReturn
    simp [endsLine, isNewline]
  · simp [endsLine, isNewline, noFeed, isReturn]

/-- A row has the one break at its end, unless there is a form feed or, in front of its last character, a carriage return. -/
theorem lineBreaks_eq_one (noFeed : '\n' ∉ row) : lineBreaks (row ++ ['\n']) = 1 ↔ '\x0c' ∉ row ∧ '\r' ∉ row.dropLast := by
  induction row with
  | nil => decide
  | cons c row ih =>
    obtain ⟨isOther, noFeedRow⟩ := List.ne_and_not_mem_of_not_mem_cons noFeed
    have more := one_le_lineBreaks row
    have first : lineBreaks (c :: row ++ ['\n']) = 1 ↔
        endsLine c (row ++ ['\n']).head? = false ∧ lineBreaks (row ++ ['\n']) = 1 := by
      rw [List.cons_append, lineBreaks_cons]
      cases endsLine c (row ++ ['\n']).head? <;> simp
      omega
    rw [first, ih noFeedRow]
    cases row with
    | nil => simp [endsLine_eq_false isOther.symm, @eq_comm _ c]
    | cons d row =>
      have isOtherNext : d ≠ '\n' := fun same => noFeedRow (same ▸ List.mem_cons_self)
      simp only [List.cons_append, List.head?_cons, endsLine_eq_false isOther.symm, Option.some.injEq, isOtherNext, imp_false,
        List.mem_cons, not_or, List.dropLast_cons_cons, @eq_comm _ c]
      tauto

/-- Whether a row that is cut to `kept` loses a line break: a form feed, a carriage return that its line feed does not follow,
or the one at the end of what is kept, which the line feed then follows. -/
def HidesBreak (kept row : List Char) : Prop :=
  ∃ dropped, row = kept ++ dropped ∧ dropped ≠ [] ∧
    (kept.getLast? = some '\r' ∨ '\x0c' ∈ dropped ∨ '\r' ∈ dropped.dropLast)

theorem lineBreaks_cut (isPrefix : kept <+: row) (noFeed : '\n' ∉ row) :
    lineBreaks (kept ++ ['\n']) ≤ lineBreaks (row ++ ['\n']) ∧
      (lineBreaks (kept ++ ['\n']) = lineBreaks (row ++ ['\n']) ↔ ¬ HidesBreak kept row) := by
  obtain ⟨dropped, rfl⟩ := isPrefix
  have hides : HidesBreak kept (kept ++ dropped) ↔
      dropped ≠ [] ∧ (kept.getLast? = some '\r' ∨ '\x0c' ∈ dropped ∨ '\r' ∈ dropped.dropLast) := by
    simp [HidesBreak]
  have noFeedDropped : '\n' ∉ dropped := fun inside => noFeed (List.mem_append_right kept inside)
  have more := one_le_lineBreaks dropped
  rw [hides, List.append_assoc]
  by_cases ends : kept.getLast? = some '\r'
  · obtain ⟨front, rfl⟩ := List.getLast?_eq_some_iff.mp ends
    have cut : lineBreaks (front ++ ['\r'] ++ ['\n']) = lineBreaks front + 1 := by
      rw [List.append_assoc, lineBreaks_append (by simp [Parted])]
      rfl
    have whole (apart : dropped ≠ []) :
        lineBreaks (front ++ ['\r'] ++ (dropped ++ ['\n'])) = lineBreaks front + 1 + lineBreaks (dropped ++ ['\n']) := by
      obtain ⟨d, others, rfl⟩ := List.exists_cons_of_ne_nil apart
      have noFeedNext : d ≠ '\n' := fun same => noFeedDropped (same ▸ List.mem_cons_self)
      rw [lineBreaks_append (by simp [Parted, noFeedNext]), lineBreaks_append (by simp [Parted])]
      rfl
    by_cases apart : dropped = []
    · simp [apart]
    · rw [cut, whole apart]
      simp only [apart, ends, ne_eq, not_false_eq_true, true_or, and_self, not_true_eq_false, iff_false]
      omega
  · have together (back : List Char) : lineBreaks (kept ++ back) = lineBreaks kept + lineBreaks back :=
      lineBreaks_append fun parted => ends parted.1
    rw [together, together, show lineBreaks ['\n'] = 1 from rfl]
    refine ⟨Nat.add_le_add_left more _, ?_⟩
    rw [Nat.add_left_cancel_iff, eq_comm, lineBreaks_eq_one noFeedDropped]
    simp only [ends, false_or, not_and_or, not_or, ne_eq, not_not]
    constructor
    · exact Or.inr
    · rintro (rfl | both)
      · simp
      · exact both

theorem lineBreaks_upTo {front kept source : List (List Char)} (begins : Begins front kept)
    (prefixes : List.Forall₂ (· <+: ·) kept source) (noFeed : ∀ row ∈ source, '\n' ∉ row) :
    lineBreaks (upTo kept front) ≤ lineBreaks (upTo source front) ∧
      (lineBreaks (upTo kept front) = lineBreaks (upTo source front) ↔
        ∀ cut ∈ (kept.zip source).take (front.length - 1), ¬ HidesBreak cut.1 cut.2) := by
  induction begins generalizing source with
  | @last part row below begins =>
    obtain ⟨whole, others, -, -, rfl⟩ := List.forall₂_cons_left_iff.mp prefixes
    simp [upTo]
  | @row row front below begins ih =>
    obtain ⟨whole, others, isPrefix, rest, rfl⟩ := List.forall₂_cons_left_iff.mp prefixes
    obtain ⟨noFeedRow, noFeedRest⟩ := List.forall_mem_cons.mp noFeed
    obtain ⟨fewer, same⟩ := ih rest noFeedRest
    obtain ⟨fewerHere, sameHere⟩ := lineBreaks_cut isPrefix noFeedRow
    obtain ⟨next, more, rfl⟩ := List.exists_cons_of_ne_nil begins.ne_nil
    have cuts : ((row :: below).zip (whole :: others)).take ((row :: next :: more).length - 1) =
        (row, whole) :: (below.zip others).take ((next :: more).length - 1) := rfl
    rw [upTo, upTo, lineBreaks_row, lineBreaks_row whole, cuts, List.forall_mem_cons, ← sameHere, ← same]
    omega

end Scan
namespace LineComment
open Text

theorem rows_stripFrom_line (chars : List Char) : ∃ below, rows (stripFrom .line chars) = [] :: below := by
  induction chars with
  | nil => exact ⟨[], rfl⟩
  | cons c chars ih =>
    rw [stripFrom]
    split
    · next isFeed =>
      obtain rfl := beq_iff_eq.mp isFeed
      exact ⟨_, rows_lineFeed _⟩
    · exact ih

theorem rows_cons_begins {kept text : List Char} (prefixes : List.Forall₂ (· <+: ·) (rows kept) (rows text)) (c : Char) :
    List.Forall₂ (· <+: ·) (rows (c :: kept)) (rows (c :: text)) := by
  by_cases isFeed : c = '\n'
  · subst isFeed
    exact .cons List.nil_prefix prefixes
  · obtain ⟨part, more, found, longer⟩ := rows_cons isFeed kept
    obtain ⟨row, below, foundText, longerText⟩ := rows_cons isFeed text
    rw [found, foundText] at prefixes
    rw [longer, longerText]
    cases prefixes with
    | cons isPrefix rest => exact .cons (List.cons_prefix_cons.mpr ⟨rfl, isPrefix⟩) rest

theorem rows_drop_begins {kept text : List Char} {c : Char} (noFeed : c ≠ '\n')
    (prefixes : List.Forall₂ (· <+: ·) (rows kept) (rows text)) (nothing : ∃ below, rows kept = [] :: below) :
    List.Forall₂ (· <+: ·) (rows kept) (rows (c :: text)) := by
  obtain ⟨more, found⟩ := nothing
  obtain ⟨row, below, foundText, longerText⟩ := rows_cons noFeed text
  rw [found, foundText] at prefixes
  rw [found, longerText]
  cases prefixes with
  | cons isPrefix rest => exact .cons List.nil_prefix rest

theorem rows_stripFrom (mode : Mode) (chars : List Char) :
    List.Forall₂ (· <+: ·) (rows (stripFrom mode chars)) (rows chars) := by
  fun_induction stripFrom mode chars with
  | case1 => exact .cons (List.prefix_refl _) .nil
  | case4 before c cs noQuote noBlock isLine ih =>
    have isSlash : c = '/' := by simp at isLine; tauto
    exact rows_drop_begins (by rw [isSlash]; decide) ih (rows_stripFrom_line cs)
  | case13 c cs notFeed ih => exact rows_drop_begins (by simpa using notFeed) ih (rows_stripFrom_line cs)
  | _ => exact rows_cons_begins (by assumption) _

end LineComment
end MapStyle
