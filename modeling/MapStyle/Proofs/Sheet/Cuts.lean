import Mathlib.Data.List.Infix
import Mathlib.Data.List.TakeWhile
import MapStyle.Proofs.Text.Parts
import MapStyle.Sheet.Scan
/-!
Lines of the pieces of a text. A carriage return and the line feed behind it are one line break, so lines can be counted
piece by piece only because no token ends between the two. Each piece is on the line that follows from what stands in front
of it.
-/
namespace MapStyle
namespace Scan

/-- Whether a cut between two texts parts a carriage return from its line feed. -/
def Parted (front back : List Char) : Prop := front.getLast? = some '\r' ∧ back.head? = some '\n'

variable {front back : List Char}

/-- Whether a line ends with the character `c`, which stands in front of `next`. -/
def endsLine (c : Char) (next : Option Char) : Bool := isNewline c && !(c == '\r' && next == some '\n')

theorem lineBreaks_cons (c : Char) (cs : List Char) :
    lineBreaks (c :: cs) = (endsLine c cs.head?).toNat + lineBreaks cs := by
  change (if endsLine c cs.head? then 1 else 0) + lineBreaks cs = _
  cases endsLine c cs.head? <;> rfl

theorem lineBreaks_append (together : ¬ Parted front back) :
    lineBreaks (front ++ back) = lineBreaks front + lineBreaks back := by
  induction front with
  | nil => simp [lineBreaks]
  | cons c front ih =>
    cases front with
    | nil =>
      have alone : ¬ (c = '\r' ∧ back.head? = some '\n') := fun ⟨isReturn, isFeed⟩ => together ⟨by simp [isReturn], isFeed⟩
      have same : endsLine c back.head? = endsLine c none := by
        unfold endsLine
        congr 2
        simpa using alone
      rw [List.singleton_append, lineBreaks_cons, lineBreaks_cons, same]
      rfl
    | cons d front =>
      have later := ih (fun ⟨isReturn, isFeed⟩ => together ⟨by simpa using isReturn, isFeed⟩)
      rw [List.cons_append, lineBreaks_cons, later, lineBreaks_cons c, Nat.add_assoc]
      rfl

/-- A cut behind the first `n` characters parts no carriage return from its line feed. -/
def Whole (n : Nat) (cs : List Char) : Prop := ∀ i, cs[i]? = some '\r' → cs[i + 1]? = some '\n' → n ≠ i + 1

section whole
variable {m n : Nat} {c : Char} {cs : List Char}

theorem whole_zero : Whole 0 cs := fun _ _ _ same => Nat.noConfusion same

theorem Whole.not_parted (whole : Whole n cs) : ¬ Parted (cs.take n) (cs.drop n) := by
  rintro ⟨isReturn, isFeed⟩
  rw [List.head?_drop] at isFeed
  cases n with
  | zero => simp at isReturn
  | succ i =>
    have inside : i + 1 < cs.length := (List.getElem?_eq_some_iff.mp isFeed).1
    have last : cs[i]? = some '\r' := by
      simpa [List.getLast?_take, List.getElem?_eq_getElem (Nat.lt_of_succ_lt inside)] using isReturn
    exact whole i last isFeed rfl

theorem Whole.add (first : Whole m cs) (second : Whole n (cs.drop m)) : Whole (m + n) cs := by
  intro i isReturn isFeed same
  cases n with
  | zero => exact first i isReturn isFeed same
  | succ k =>
    obtain rfl : i = m + k := by omega
    exact second k (by rwa [List.getElem?_drop]) (by rwa [List.getElem?_drop]) rfl

/-- One character more: a carriage return only if the cut is not right behind it. -/
theorem Whole.cons (rest : Whole n cs) (together : c = '\r' → cs.head? = some '\n' → n ≠ 0) : Whole (1 + n) (c :: cs) := by
  intro i isReturn isFeed same
  cases i with
  | zero =>
    have isHead : cs.head? = some '\n' := by simpa [List.head?_eq_getElem?] using isFeed
    exact together (by simpa using isReturn) isHead (by omega)
  | succ k => exact rest k (by simpa using isReturn) (by simpa using isFeed) (by omega)

theorem Whole.cons_of_ne (rest : Whole n cs) (noReturn : c ≠ '\r') : Whole (1 + n) (c :: cs) :=
  rest.cons fun isReturn => absurd isReturn noReturn

theorem Whole.cons_cons {d : Char} (rest : Whole n cs) (noReturn : c ≠ '\r') (noReturnNext : d ≠ '\r') :
    Whole (2 + n) (c :: d :: cs) := by
  have longer := (rest.cons_of_ne noReturnNext).cons_of_ne noReturn
  rwa [← Nat.add_assoc] at longer

theorem whole_one (noReturn : c ≠ '\r') : Whole 1 (c :: cs) := whole_zero.cons_of_ne noReturn

theorem whole_takeWhile {p : Char → Bool} (both : p '\r' → p '\n') (cs : List Char) : Whole (cs.takeWhile p).length cs := by
  induction cs with
  | nil => exact whole_zero
  | cons c cs ih =>
    cases inside : p c with
    | false => simpa [inside] using whole_zero
    | true =>
      rw [List.takeWhile_cons_of_pos inside, List.length_cons, Nat.add_comm]
      refine ih.cons ?_
      rintro rfl isFeed
      obtain ⟨rest, rfl⟩ := List.head?_eq_some_iff.mp isFeed
      simp [both inside]

/-- A run of blanks takes a carriage return with its line feed. -/
theorem whole_blanks (isBlank : isSpace c) (cs : List Char) : Whole (1 + (cs.takeWhile isSpace).length) (c :: cs) := by
  have run := whole_takeWhile (p := isSpace) (fun _ => by decide) (c :: cs)
  rwa [List.takeWhile_cons_of_pos isBlank, List.length_cons, Nat.add_comm] at run

theorem whole_newlineLength (cs : List Char) : Whole (newlineLength cs) cs := by
  unfold newlineLength
  split
  · exact (whole_one (by decide)).cons fun _ _ => by decide
  · rename_i c rest notPair
    split
    · refine whole_zero.cons ?_
      rintro rfl isFeed
      obtain ⟨more, rfl⟩ := List.head?_eq_some_iff.mp isFeed
      exact absurd rfl (notPair more rfl)
    · exact whole_zero
  · exact whole_zero

/-- A character of a class that carriage returns are not in is none. -/
theorem noReturn_of {p : Char → Bool} (has : p c = true) (other : p '\r' = false) : c ≠ '\r' := by
  rintro rfl
  rw [has] at other
  cases other

theorem noReturn_of_beq {d : Char} (same : (c == d) = true) (other : d ≠ '\r') : c ≠ '\r' := beq_iff_eq.mp same ▸ other

theorem noReturn_of_not {p : Char → Bool} (has : p c ≠ true) (other : p '\r' = true) : c ≠ '\r' := by
  rintro rfl
  exact has other

theorem whole_of_take (noReturn : '\r' ∉ cs.take n) : Whole n cs := by
  rintro i isReturn - rfl
  exact noReturn (List.mem_iff_getElem?.mpr ⟨i, by rw [List.getElem?_take_of_lt (Nat.lt_succ_self i), isReturn]⟩)

theorem whole_escape (noBreak : startsNewline cs = false) : Whole (escape cs).2 cs := by
  unfold escape
  split
  · exact whole_zero
  · rename_i c rest
    have noReturn : c ≠ '\r' := by
      rintro rfl
      cases noBreak
    split
    · refine Whole.add (whole_of_take fun inside => ?_) ?_
      · have front : (c :: rest).take 6 <+: c :: rest := List.take_prefix 6 _
        have digits : ((c :: rest).take 6).takeWhile Text.isHexDigit <+: (c :: rest).take 6 := List.takeWhile_prefix _
        rw [← List.prefix_iff_eq_take.mp (digits.trans front)] at inside
        exact noReturn_of (List.mem_takeWhile_imp inside) (by decide) rfl
      · split
        · rename_i isSpace
          exact isSpace ▸ whole_one (by decide)
        · rename_i isTab
          exact isTab ▸ whole_one (by decide)
        · exact whole_newlineLength _
    · split <;> exact whole_one noReturn

theorem Whole.escaped {k : Nat} {char : Char} (noReturn : c ≠ '\r') (noBreak : startsNewline cs = false)
    (read : escape cs = (char, k)) (rest : Whole n (cs.drop k)) : Whole (1 + k + n) (c :: cs) := by
  have inside := whole_escape noBreak
  rw [read] at inside
  rw [Nat.add_assoc]
  exact (inside.add rest).cons_of_ne noReturn

theorem whole_name (cs : List Char) : Whole (name cs).2 cs := by
  fun_induction name cs with
  | case1 => exact whole_zero
  | case2 => exact whole_zero
  | case3 c cs isBackslash noBreak char k escaped rest n read ih =>
    rw [read] at ih
    exact ih.escaped (noReturn_of_beq isBackslash (by decide)) (eq_false_of_ne_true noBreak) escaped
  | case4 c cs noBackslash isNamed rest n read ih =>
    rw [read] at ih
    exact ih.cons_of_ne (noReturn_of isNamed (by decide))
  | case5 => exact whole_zero

theorem whole_string {quote : Char} (isQuote : quote ≠ '\r') (cs : List Char) : Whole (string quote cs).2 cs := by
  fun_induction string quote cs with
  | case1 => exact whole_zero
  | case2 c cs isEnd => exact whole_one (noReturn_of_beq isEnd isQuote)
  | case3 => exact whole_zero
  | case4 c cs noQuote noBreak => exact whole_one (noReturn_of_not noBreak (by decide))
  | case5 c cs noQuote noBreak isBackslash nonempty isBreak k rest n read ih =>
    rw [read] at ih
    rw [Nat.add_assoc]
    exact ((whole_newlineLength cs).add ih).cons_of_ne (noReturn_of_not noBreak (by decide))
  | case6 c cs noQuote noBreak isBackslash nonempty noBreakNext char k escaped rest n read ih =>
    rw [read] at ih
    exact ih.escaped (noReturn_of_not noBreak (by decide)) (eq_false_of_ne_true noBreakNext) escaped
  | case7 c cs noQuote noBreak noBackslash rest n read ih =>
    rw [read] at ih
    exact ih.cons_of_ne (noReturn_of_not noBreak (by decide))

theorem whole_digits (cs : List Char) : Whole (digits cs) cs := whole_takeWhile (by decide) cs

theorem whole_exponentLength (cs : List Char) : Whole (exponentLength cs) cs := by
  unfold exponentLength
  split
  · rename_i c rest
    split
    · rename_i isMark
      have noReturn : c ≠ '\r' := by
        rintro rfl
        revert isMark
        decide
      have signed {sign : Char} {ds : List Char} (isSign : sign ≠ '\r') : Whole (2 + digits ds) (c :: sign :: ds) :=
        (whole_digits ds).cons_cons noReturn isSign
      split
      · split
        · exact signed (by decide)
        · exact whole_zero
      · split
        · exact signed (by decide)
        · exact whole_zero
      · split
        · exact (whole_digits _).cons_of_ne noReturn
        · exact whole_zero
    · exact whole_zero
  · exact whole_zero

theorem whole_fractionLength (cs : List Char) : Whole (fractionLength cs) cs := by
  unfold fractionLength
  split
  · split
    · exact (whole_digits _).cons_of_ne (by decide)
    · exact whole_zero
  · exact whole_zero

theorem whole_unsignedLength (cs : List Char) : Whole (unsignedLength cs) cs :=
  ((whole_digits cs).add (whole_fractionLength _)).add (whole_exponentLength _)

theorem spoiltUrl_ne_zero (nonempty : cs ≠ []) : spoiltUrl cs ≠ 0 := by
  fun_cases spoiltUrl cs with
  | case1 => exact absurd rfl nonempty
  | _ => omega

theorem comment_ne_zero (nonempty : cs ≠ []) : comment cs ≠ 0 := by
  fun_cases comment cs with
  | case1 => exact absurd rfl nonempty
  | _ => omega

theorem ne_nil_of_head? {d : Char} (first : cs.head? = some d) : cs ≠ [] := by
  rintro rfl
  cases first

theorem whole_spoiltUrl (cs : List Char) : Whole (spoiltUrl cs) cs := by
  fun_induction spoiltUrl cs with
  | case1 => exact whole_zero
  | case2 => exact whole_one (by decide)
  | case3 cs ih => exact ih.cons_cons (by decide) (by decide)
  | case4 cs ih => exact ih.cons_cons (by decide) (by decide)
  | case5 c cs _ _ _ ih => exact ih.cons fun _ isFeed => spoiltUrl_ne_zero (ne_nil_of_head? isFeed)

theorem whole_comment (cs : List Char) : Whole (comment cs) cs := by
  fun_induction comment cs with
  | case1 => exact whole_zero
  | case2 => exact (whole_one (by decide)).cons_of_ne (by decide)
  | case3 c cs _ ih => exact ih.cons fun _ isFeed => comment_ne_zero (ne_nil_of_head? isFeed)

theorem drop_takeWhile (p : Char → Bool) (cs : List Char) : cs.drop (cs.takeWhile p).length = cs.dropWhile p := by
  have parts : cs.takeWhile p ++ cs.dropWhile p = cs := List.takeWhile_append_dropWhile
  conv => lhs; arg 2; rw [← parts]
  exact List.drop_left

theorem whole_urlBody (cs : List Char) : Whole (urlBody cs).2 cs := by
  have behind {c : Char} {cs : List Char} : (c :: cs).drop (1 + (cs.takeWhile isSpace).length) = cs.dropWhile isSpace := by
    rw [Nat.add_comm, List.drop_succ_cons, drop_takeWhile]
  fun_induction urlBody cs with
  | case1 => exact whole_zero
  | case2 c cs isEnd => exact whole_one (noReturn_of_beq isEnd (by decide))
  | case3 c cs noEnd isBlank n rest => exact whole_blanks isBlank cs
  | case4 c cs noEnd isBlank n rest found =>
    refine (whole_blanks isBlank cs).add ?_
    rw [behind, found]
    exact whole_one (by decide)
  | case5 c cs noEnd isBlank n d rest other found =>
    have noBlank : isSpace d = false := Text.not_head_dropWhile (by rw [found]; rfl)
    rw [Nat.add_assoc]
    refine (whole_blanks isBlank cs).add ?_
    rw [behind, found]
    have noReturn : d ≠ '\r' := noReturn_of_not (p := isSpace) (by simp [noBlank]) (by decide)
    exact (whole_spoiltUrl rest).cons_of_ne noReturn
  | case6 c cs noEnd noBlank spoils =>
    exact (whole_spoiltUrl cs).cons_of_ne (noReturn_of_not noBlank (by decide))
  | case7 c cs noEnd noBlank fine isBackslash isBreak =>
    exact (whole_spoiltUrl cs).cons_of_ne (noReturn_of_not noBlank (by decide))
  | case8 c cs noEnd noBlank fine isBackslash noBreak char k escaped rest n read ih =>
    rw [read] at ih
    exact ih.escaped (noReturn_of_not noBlank (by decide)) (eq_false_of_ne_true noBreak) escaped
  | case9 c cs noEnd noBlank fine noBackslash rest n read ih =>
    rw [read] at ih
    exact ih.cons_of_ne (noReturn_of_not noBlank (by decide))

theorem whole_numeric {skip : Nat} (whole : Whole skip cs) : Whole (numeric skip cs).2 cs := by
  have number : Whole (skip + unsignedLength (cs.drop skip)) cs := whole.add (whole_unsignedLength _)
  unfold numeric
  dsimp only
  split
  · rename_i rest found
    refine number.add ?_
    rw [found]
    exact whole_one (by decide)
  · split
    · exact number.add (whole_name _)
    · exact number

theorem whole_urlLike (word : String) (cs : List Char) : Whole (urlLike word cs).2 cs := by
  have blanks := whole_takeWhile (p := isSpace) (fun _ => by decide) cs
  unfold urlLike
  dsimp only
  split
  · exact whole_zero
  · exact whole_zero
  · have body := whole_urlBody (cs.drop (cs.takeWhile isSpace).length)
    split
    · rename_i read
      rw [read] at body
      exact blanks.add body
    · rename_i read
      rw [read] at body
      exact blanks.add body

theorem whole_nameLike (cs : List Char) : Whole (nameLike cs).2 cs := by
  have named := whole_name cs
  unfold nameLike
  dsimp only
  split
  · rename_i rest found
    split
    · rw [Nat.add_assoc]
      refine named.add ?_
      rw [found]
      exact (whole_urlLike _ rest).cons_of_ne (by decide)
    · refine named.add ?_
      rw [found]
      exact whole_one (by decide)
  · exact named

theorem whole_quotedLike {quote : Char} (isQuote : quote ≠ '\r') (cs : List Char) : Whole (quotedLike quote cs).2 cs := by
  have inside := whole_string isQuote cs
  unfold quotedLike
  split
  · rename_i read
    rwa [read] at inside
  · rename_i read
    rwa [read] at inside

theorem Whole.tail (whole : Whole n (c :: cs)) : Whole (n - 1) cs := fun i isReturn isFeed same =>
  whole (i + 1) (by simpa using isReturn) (by simpa using isFeed) (by omega)

theorem whole_of_word (word : List Char) (noReturn : '\r' ∉ word) (begins : cs.take word.length == word) :
    Whole word.length cs := whole_of_take (by rwa [beq_iff_eq.mp begins])

theorem whole_token (c : Char) (cs : List Char) : Whole (1 + (token c cs).2) (c :: cs) := by
  have named {d : Char} : Whole ((nameLike (d :: cs)).2 - 1) cs := (whole_nameLike (d :: cs)).tail
  have signed {d : Char} (isSign : d ≠ '\r') : Whole ((numeric 1 (d :: cs)).2 - 1) cs := (whole_numeric (whole_one isSign)).tail
  have unsigned {d : Char} : Whole ((numeric 0 (d :: cs)).2 - 1) cs := (whole_numeric whole_zero).tail
  have pair {d e : Char} (isOther : d ≠ '\r') :
      Whole (if cs.head? == some d then (Shape.other, 1) else (Shape.mark e, 0)).2 cs := by
    split
    · rename_i first
      obtain ⟨rest, rfl⟩ := List.head?_eq_some_iff.mp (beq_iff_eq.mp first)
      exact whole_one isOther
    · exact whole_zero
  by_cases isReturn : c = '\r'
  · subst isReturn
    exact whole_blanks (by decide) cs
  · refine Whole.cons_of_ne ?_ isReturn
    -- one case for each character that the scanner looks for
    unfold token
    dsimp only
    split
    case h_1 | h_2 => exact whole_quotedLike (by decide) cs
    case h_3 | h_4 =>
      split
      · exact whole_name cs
      · exact whole_zero
    case h_14 | h_15 | h_16 | h_17 | h_18 => exact pair (by decide)
    case h_19 =>
      split
      · exact signed (by decide)
      · exact whole_zero
    case h_20 =>
      split
      · exact signed (by decide)
      · dsimp only [Option.getD_none]
        split
        · rename_i begins
          exact whole_of_word ['-', '>'] (by decide) begins
        · split
          · exact named
          · exact whole_zero
    case h_21 =>
      split
      · exact unsigned
      · exact whole_zero
    case h_22 =>
      split
      · rename_i first
        obtain ⟨rest, rfl⟩ := List.head?_eq_some_iff.mp (beq_iff_eq.mp first)
        exact (whole_comment rest).cons_of_ne (by decide)
      · exact whole_zero
    case h_23 =>
      split
      · rename_i begins
        exact whole_of_word ['!', '-', '-'] (by decide) begins
      · exact whole_zero
    case h_24 =>
      split
      · exact whole_zero
      · exact named
    case h_25 =>
      split
      · exact whole_takeWhile (fun _ => by decide) cs
      · split
        · exact unsigned
        · split
          · exact named
          · exact whole_zero
    all_goals exact whole_zero

end whole

/-- The line on which a text goes on after `front`. -/
def lineAfter (front : List Char) : Nat := 1 + lineBreaks front

def Piece.reline (f : Nat → Nat) (piece : Piece) : Piece := { piece with line := f piece.line }

/-- The pieces, each with the number of characters in front of it for its line. -/
def placed (start : Nat) : List Piece → List Piece
  | [] => []
  | piece :: rest => { piece with line := start } :: placed (start + piece.raw.length) rest

theorem pieces_placed_from (text : List Char) (line : Nat) (cs : List Char) :
    ∀ front, text = front ++ cs → line = lineAfter front → ¬ Parted front cs →
      pieces line cs = (placed front.length (pieces line cs)).map (Piece.reline fun start => lineAfter (text.take start)) := by
  fun_induction pieces line cs with
  | case1 => exact fun _ _ _ _ => rfl
  | case2 line c cs shape n read raw ih =>
    -- the cut in front of the rest parts no pair, so the breaks on both sides add up
    intro front split isLine together
    have whole := (whole_token c cs).not_parted
    rw [read, Nat.add_comm] at whole
    have parts : c :: cs = raw ++ cs.drop n := by rw [List.cons_append, List.take_append_drop]
    have further : ¬ Parted (front ++ raw) (cs.drop n) := by
      rintro ⟨isReturn, isFeed⟩
      rw [List.getLast?_append_of_ne_nil _ (List.cons_ne_nil _ _)] at isReturn
      exact whole ⟨isReturn, isFeed⟩
    have breaks : lineBreaks (front ++ raw) = lineBreaks front + lineBreaks raw := lineBreaks_append together
    have next := ih (front ++ raw) (by rw [split, parts, List.append_assoc])
      (by rw [isLine, lineAfter, lineAfter, breaks, Nat.add_assoc]) further
    rw [placed, List.map_cons, ← List.length_append, ← next, Piece.reline, split, List.take_left, ← isLine]

theorem pieces_placed (text : List Char) :
    pieces 1 text = (placed 0 (pieces 1 text)).map (Piece.reline fun start => lineAfter (text.take start)) :=
  pieces_placed_from text 1 text [] rfl rfl (by simp [Parted])

end Scan
end MapStyle
