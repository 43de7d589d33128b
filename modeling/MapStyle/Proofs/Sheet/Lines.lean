import Mathlib
import MapStyle.Proofs.Sheet.Relining
import MapStyle.Proofs.Sheet.Rows
/-!
Lines of a source. A sheet is read from what is kept of its source without line comments, and lines are counted there. They
are those of the source as long as no line comment hides a line break other than its line feed.
-/
namespace MapStyle
open Scan

namespace Reader
variable {f : Nat → Nat}

def readLexemes (file : String) (items : List Lexeme) : Reading Sheet := do
  let block ← readBlock file .idle items
  match block.declarations with
  | [] => return ⟨file, block.bindings, block.rulesets⟩
  | loose :: _ => fail (.looseDeclaration loose.property) loose.place

theorem readSheet_eq (file css : String) :
    readSheet file css = readLexemes file (Lexeme.ofChars (LineComment.strip css.toList)) := rfl

theorem readLexemes_relines (file : String) (items : List Lexeme) :
    Relines f (fun sheet other => other = sheet.reline f) (readLexemes file items)
      (readLexemes file (items.map (Lexeme.reline f))) := by
  unfold readLexemes
  apply Relines.bind (readBlock_relines file .idle items)
  rintro ⟨bindings, declarations, rulesets⟩ _ rfl
  cases declarations with
  | nil => exact Relines.pure rfl
  | cons loose rest => exact Relines.fail _ _

def relineResult (f : Nat → Nat) : Except StyleError (Sheet × Numbering) → Except StyleError (Sheet × Numbering)
  | .ok (sheet, stop) => .ok (sheet.reline f, stop)
  | .error error => .error (error.reline f)

theorem readLexemes_reline (file : String) (items : List Lexeme) (start : Numbering) :
    readLexemes file (items.map (Lexeme.reline f)) start = relineResult f (readLexemes file items start) := by
  have reads := readLexemes_relines (f := f) file items start
  cases ran : readLexemes file items start with
  | error error =>
    rw [ran] at reads
    exact reads
  | ok read =>
    rw [ran] at reads
    obtain ⟨_, again, rfl⟩ := reads
    exact again

end Reader

namespace Sheet

/-- Reads a stylesheet, and gives for each line the number of characters that are kept in front of the place. -/
def readPlaced (file css : String) (start : Reader.Numbering) : Except StyleError (Sheet × Reader.Numbering) :=
  Reader.readLexemes file
    (Lexeme.ofPieces (joinComments none (placed 0 (pieces 1 (LineComment.strip css.toList))))) start

theorem read_eq_readPlaced (file css : String) (start : Reader.Numbering) :
    Sheet.read file css start =
      Reader.relineResult (fun place => lineAfter ((LineComment.strip css.toList).take place)) (readPlaced file css start) := by
  have pieced := pieces_placed (LineComment.strip css.toList)
  have joined := joinComments_reline (fun place => lineAfter ((LineComment.strip css.toList).take place)) none
    (placed 0 (pieces 1 (LineComment.strip css.toList)))
  rw [← pieced] at joined
  change Reader.readSheet file css start = _
  rw [Reader.readSheet_eq, readPlaced, ← Reader.readLexemes_reline, ← Lexeme.ofPieces_reline, ← joined]
  rfl

/-- What is kept of a text without its line comments has its rows, each from the start. The line of a place is counted in
what is kept in front of it. It is the line of the place in the source unless a row above it was cut at a hidden break. -/
theorem read_lines (file css : String) (start : Reader.Numbering) :
    let source := css.toList
    let kept := LineComment.strip source
    let cuts := (Text.rows kept).zip (Text.rows source)
    let front := fun place => Text.upTo (Text.rows source) (Text.rows (kept.take place))
    (kept.count '\n' = source.count '\n' ∧ List.Forall₂ (· <+: ·) (Text.rows kept) (Text.rows source)) ∧
      Sheet.read file css start =
        Reader.relineResult (fun place => lineAfter (kept.take place)) (readPlaced file css start) ∧
      (∀ place, front place <+: source ∧ ∀ c, kept[place]? = some c → c ≠ '\n' → source[(front place).length]? = some c) ∧
      (∀ place, lineAfter (kept.take place) ≤ lineAfter (front place) ∧
        (lineAfter (kept.take place) = lineAfter (front place) ↔
          ∀ cut ∈ cuts.take ((kept.take place).count '\n'), ¬ HidesBreak cut.1 cut.2)) ∧
      ((∀ cut ∈ cuts, ¬ HidesBreak cut.1 cut.2) →
        Sheet.read file css start =
          Reader.relineResult (fun place => lineAfter (front place)) (readPlaced file css start)) := by
  intro source kept cuts front
  have prefixes : List.Forall₂ (· <+: ·) (Text.rows kept) (Text.rows source) := LineComment.rows_stripFrom _ source
  have sameCount : kept.count '\n' = source.count '\n' := by
    have sameLength := prefixes.length_eq
    rw [Text.length_rows, Text.length_rows] at sameLength
    exact Nat.succ.inj sameLength
  have begins (place : Nat) : Text.Begins (Text.rows (kept.take place)) (Text.rows kept) := by
    apply Text.begins_rows
    exact List.take_prefix place kept
  have isPrefix (place : Nat) : front place <+: source := by
    have upTo := Text.upTo_begins (begins place) prefixes
    rwa [Text.intercalate_rows] at upTo
  have lines (place : Nat) : lineAfter (kept.take place) ≤ lineAfter (front place) ∧
      (lineAfter (kept.take place) = lineAfter (front place) ↔
        ∀ cut ∈ cuts.take ((kept.take place).count '\n'), ¬ HidesBreak cut.1 cut.2) := by
    have cleanRows : ∀ row ∈ Text.rows source, '\n' ∉ row := fun row inside isThere => by
      simpa using Text.clean_of_mem_splitBy inside '\n' isThere
    obtain ⟨fewer, same⟩ := lineBreaks_upTo (begins place) prefixes cleanRows
    rw [Text.upTo_self (begins place), Text.intercalate_rows] at fewer same
    rw [Text.length_rows, Nat.add_sub_cancel] at same
    rw [lineAfter, lineAfter, Nat.add_left_cancel_iff, Nat.add_le_add_iff_left]
    exact ⟨fewer, same⟩
  have read := read_eq_readPlaced file css start
  refine ⟨⟨sameCount, prefixes⟩, read,
    fun place => ⟨isPrefix place, fun c stands noBreak => Text.getElem?_upTo prefixes noBreak stands⟩, lines, fun whole => ?_⟩
  have same : (fun place => lineAfter (kept.take place)) = fun place => lineAfter (front place) :=
    funext fun place => (lines place).2.mpr fun cut inside => whole cut (List.mem_of_mem_take inside)
  rw [read]
  exact congrArg (Reader.relineResult · _) same

def returning : String := "#a \x7b\x7d\r#b \x7b\x7d // c\rd\nx: y;"

theorem read_lines_returning :
    let source := returning.toList
    let front := Text.upTo (Text.rows source) (Text.rows ((LineComment.strip source).take 13))
    readPlaced "t.mss" returning ⟨0, 0⟩ = .error (.flawed (.looseDeclaration "x") ⟨"t.mss", 13⟩) ∧
      Sheet.read "t.mss" returning ⟨0, 0⟩ = .error (.flawed (.looseDeclaration "x") ⟨"t.mss", 3⟩) ∧
      source = front ++ "x: y;".toList ∧ lineAfter front = 4 ∧
      ∃ cut ∈ (Text.rows (LineComment.strip source)).zip (Text.rows source), HidesBreak cut.1 cut.2 := by
  intro source front
  have lexed : Lexeme.ofPieces (joinComments none (placed 0 (pieces 1 (LineComment.strip returning.toList)))) =
      [.leaf (.hash "a") 0, .leaf .blank 2, .group .curly [] 3, .leaf .blank 5, .leaf (.hash "b") 6, .leaf .blank 8,
        .group .curly [] 9, .leaf .blank 11, .leaf (.word "x") 13, .leaf .colon 14, .leaf .blank 15, .leaf (.word "y") 16,
        .leaf .semicolon 17] := by cbv
  have readAt : readPlaced "t.mss" returning ⟨0, 0⟩ = .error (.flawed (.looseDeclaration "x") ⟨"t.mss", 13⟩) := by
    unfold readPlaced
    rw [lexed]
    cbv
  obtain ⟨-, read, -, lines, -⟩ := read_lines "t.mss" returning ⟨0, 0⟩
  have counted : lineAfter ((LineComment.strip source).take 13) = 3 ∧ source = front ++ "x: y;".toList ∧ lineAfter front = 4 := by
    decide +kernel
  obtain ⟨third, parts, fourth⟩ := counted
  refine ⟨readAt, ?_, parts, fourth, ?_⟩
  · rw [read, readAt]
    exact congrArg (fun line => Except.error (StyleError.flawed (.looseDeclaration "x") ⟨"t.mss", line⟩)) third
  · have moved : ¬ lineAfter ((LineComment.strip source).take 13) = lineAfter front := by rw [third, fourth]; decide
    have hidden := mt (lines 13).2.mpr moved
    push Not at hidden
    obtain ⟨cut, inside, hides⟩ := hidden
    exact ⟨cut, List.mem_of_mem_take inside, hides⟩

end Sheet
end MapStyle
