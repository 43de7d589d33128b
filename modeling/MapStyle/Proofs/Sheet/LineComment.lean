import Mathlib.Data.List.Infix
import Mathlib.Tactic.Push
import MapStyle.Sheet.LineComment
import MapStyle.Sheet.Scan
/-!
Texts as sequences of segments. Line comments are taken out, and nothing else, as long as no other segment shows a mark of
a comment: a block comment whose first character is a slash is taken to end with it, and in a url two slashes start a line
comment unless a colon stands before them, and a slash and an asterisk a block comment. From the first such mark on, the
text is read as if it began there.
-/
namespace MapStyle.LineComment
/-- A part of a stylesheet, as far as comments go. -/
inductive Segment where
  | plain (text : List Char)
  | quoted (quote : Char) (body : List Char)
  | block (body : List Char)
  | url (name body : List Char)
  | line (body : List Char)

/-- What can stand between two quotes: a backslash goes with the character after it. -/
inductive Quotable (quote : Char) : List Char → Prop where
  | nil : Quotable quote []
  | char {c : Char} {rest : List Char} (other : c ≠ quote) (noEscape : c ≠ '\\') (more : Quotable quote rest) :
      Quotable quote (c :: rest)
  | escape {c : Char} {rest : List Char} (more : Quotable quote rest) : Quotable quote ('\\' :: c :: rest)

namespace Segment

def text : Segment → List Char
  | plain text => text
  | quoted quote body => quote :: (body ++ [quote])
  | block body => '/' :: '*' :: (body ++ ['*', '/'])
  | url name body => name ++ '(' :: (body ++ [')'])
  | line body => '/' :: '/' :: body

def kept : Segment → List Char
  | line _ => []
  | segment => segment.text

def isLine : Segment → Bool
  | line _ => true
  | _ => false

def Formed : Segment → Prop
  | plain text => ∀ c ∈ text, c ≠ '"' ∧ c ≠ '\'' ∧ c ≠ '/'
  | quoted quote body => (quote = '"' ∨ quote = '\'') ∧ Quotable quote body
  | block body => ¬ ['*', '/'] <:+: body
  | url name body => name.map Char.toLower = ['u', 'r', 'l'] ∧
      ∀ c ∈ body, Scan.isSpace c = false ∧ c ≠ '"' ∧ c ≠ '\'' ∧ c ≠ '(' ∧ c ≠ ')'
  | line body => '\n' ∉ body

end Segment

variable {before : Char} {chars rest : List Char}

def lastOf (before : Char) (text : List Char) : Char := text.getLast?.getD before

def textOf (segments : List Segment) : List Char := segments.flatMap Segment.text

def keptOf (segments : List Segment) : List Char := segments.flatMap Segment.kept

/-- Segments that can follow the character `before`: a line comment does not stand behind a colon, and goes up to the end
of its line. -/
def Follow (before : Char) : List Segment → Prop
  | [] => True
  | segment :: rest => segment.Formed ∧
      (segment.isLine → before ≠ ':' ∧ ∀ c ∈ (textOf rest).head?, c = '\n') ∧ Follow (lastOf before segment.text) rest

def Quiet : Char → List Char → Prop
  | _, [] => True
  | before, c :: rest => (c = '/' → ∀ d ∈ rest.head?, d ≠ '*' ∧ (d = '/' → before = ':')) ∧ Quiet c rest

/-- A segment splits at the first mark of a comment that is none of its own. -/
inductive Splits : Segment → List Char → List Char → Prop where
  | block (body : List Char) : Splits (.block ('/' :: body)) ['/', '*', '/'] (body ++ ['*', '/'])
  | url {name front back : List Char} {c : Char} (first : Quiet '(' (front ++ ['/']))
      (mark : c = '*' ∨ c = '/' ∧ lastOf '(' front ≠ ':') :
      Splits (.url name (front ++ '/' :: c :: back)) (name ++ '(' :: front) ('/' :: c :: (back ++ [')']))

/-- A segment that shows no mark of a comment but its own. -/
def Segment.Calm : Segment → Prop
  | .block body => body.head? ≠ some '/'
  | .url _ body => Quiet '(' body
  | _ => True

theorem lastOf_cons (c : Char) (text : List Char) : lastOf before (c :: text) = lastOf c text := by
  simp [lastOf, List.getLast?_cons]

@[simp] theorem lastOf_concat (text : List Char) (c : Char) : lastOf before (text ++ [c]) = c := by
  simp [lastOf]

theorem lastOf_append (text more : List Char) : lastOf before (text ++ more) = lastOf (lastOf before text) more := by
  induction text generalizing before with
  | nil => rfl
  | cons c text ih => rw [List.cons_append, lastOf_cons, lastOf_cons, ih]

theorem textOf_cons (segment : Segment) (rest : List Segment) : textOf (segment :: rest) = segment.text ++ textOf rest := rfl

theorem keptOf_cons (segment : Segment) (rest : List Segment) : keptOf (segment :: rest) = segment.kept ++ keptOf rest := rfl

theorem keptOf_append (segments more : List Segment) : keptOf (segments ++ more) = keptOf segments ++ keptOf more :=
  List.flatMap_append

theorem stripFrom_plain (noColon : before ≠ ':') (chars : List Char) : stripFrom (.plain before) chars = strip chars := by
  cases chars with
  | nil => rfl
  | cons c rest => simp [strip, stripFrom, noColon]

theorem strip_break (rest : List Char) : strip ('\n' :: rest) = '\n' :: strip rest := by
  simp [strip, stripFrom]

theorem stripFrom_lineEnd (ends : ∀ c ∈ chars.head?, c = '\n') : stripFrom (.plain before) chars = strip chars := by
  cases chars with
  | nil => rfl
  | cons c rest =>
    obtain rfl := ends c rfl
    simp [strip, stripFrom]

theorem stripFrom_line (inLine : '\n' ∉ chars) (ends : ∀ c ∈ rest.head?, c = '\n') :
    stripFrom .line (chars ++ rest) = strip rest := by
  induction chars with
  | nil =>
    cases rest with
    | nil => rfl
    | cons c rest =>
      obtain rfl := ends c rfl
      rw [List.nil_append, stripFrom, if_pos (beq_self_eq_true _), stripFrom_plain (by decide), strip_break]
  | cons c chars ih =>
    simp only [List.mem_cons, not_or] at inLine
    rw [List.cons_append, stripFrom, if_neg (by simpa using Ne.symm inLine.1), ih inLine.2]

theorem quiet_of_noSlash (noSlash : ∀ c ∈ chars, c ≠ '/') : Quiet before (chars ++ rest.take 1) := by
  induction chars generalizing before with
  | nil => cases rest <;> simp [Quiet]
  | cons c chars ih =>
    obtain ⟨here, later⟩ := List.forall_mem_cons.mp noSlash
    exact ⟨fun slash => absurd slash here, ih later⟩

theorem quiet_concat {c : Char} (quiet : Quiet before chars) (noStar : c ≠ '*') (noSlash : c ≠ '/') :
    Quiet before (chars ++ [c]) := by
  induction chars generalizing before with
  | nil => simp [Quiet]
  | cons d chars ih =>
    refine ⟨fun slash e next => ?_, ih quiet.2⟩
    cases chars with
    | nil =>
      obtain rfl : c = e := by simpa using next
      exact ⟨noStar, fun again => absurd again noSlash⟩
    | cons f chars => exact quiet.1 slash e next

theorem quiet_or_mark (before : Char) (chars : List Char) : Quiet before chars ∨ ∃ front c back,
    chars = front ++ '/' :: c :: back ∧ Quiet before (front ++ ['/']) ∧ (c = '*' ∨ c = '/' ∧ lastOf before front ≠ ':') := by
  induction chars generalizing before with
  | nil => exact Or.inl trivial
  | cons c chars ih =>
    by_cases here : c = '/' → ∀ d ∈ chars.head?, d ≠ '*' ∧ (d = '/' → before = ':')
    · rcases ih c with quiet | ⟨front, d, back, rfl, first, mark⟩
      · exact Or.inl ⟨here, quiet⟩
      · refine Or.inr ⟨c :: front, d, back, rfl, ⟨?_, first⟩, by rwa [lastOf_cons]⟩
        cases front <;> exact here
    · push Not at here
      obtain ⟨rfl, d, next, mark⟩ := here
      obtain ⟨back, rfl⟩ := List.head?_eq_some_iff.mp next
      exact Or.inr ⟨[], d, back, rfl, by simp [Quiet], (em (d = '*')).imp_right mark⟩

/-- What shows no mark of a comment stays; `rest` is looked at only for its first character. -/
theorem stripFrom_quiet (noQuotes : ∀ c ∈ chars, c ≠ '"' ∧ c ≠ '\'') (quiet : Quiet before (chars ++ rest.take 1)) :
    stripFrom (.plain before) (chars ++ rest) = chars ++ stripFrom (.plain (lastOf before chars)) rest := by
  induction chars generalizing before with
  | nil => rfl
  | cons c chars ih =>
    obtain ⟨noQuote, noQuotes⟩ := List.forall_mem_cons.mp noQuotes
    have next : ∀ d, (chars ++ rest).head? = some d → c = '/' → d ≠ '*' ∧ (d = '/' → before = ':') := by
      intro d isNext slash
      exact quiet.1 slash d (by cases chars <;> cases rest <;> simp_all)
    have noBlock : ¬ (c = '/' ∧ (chars ++ rest).head? = some '*') := fun ⟨slash, star⟩ => (next _ star slash).1 rfl
    have noLine : ¬ ((c = '/' ∧ (chars ++ rest).head? = some '/') ∧ before ≠ ':') :=
      fun ⟨⟨slash, again⟩, noColon⟩ => noColon ((next _ again slash).2 rfl)
    have step : stripFrom (.plain before) (c :: (chars ++ rest)) = c :: stripFrom (.plain c) (chars ++ rest) := by
      rw [stripFrom, if_neg (by simpa using noQuote), if_neg (by simpa using noBlock), if_neg (by simpa using noLine)]
    rw [List.cons_append, step, ih noQuotes quiet.2, lastOf_cons, List.cons_append]

theorem stripFrom_quoted {quote : Char} (closed : Quotable quote chars) (noEscape : quote ≠ '\\') :
    stripFrom (.quoted quote) (chars ++ quote :: rest) = chars ++ quote :: stripFrom (.plain quote) rest := by
  induction closed with
  | nil => simp [stripFrom, noEscape]
  | char other noEscape more ih => simp [stripFrom, other, noEscape, ih]
  | escape more ih => simp [stripFrom, ih]

theorem stripFrom_block (apart : ¬ (before = '*' ∧ chars.head? = some '/')) (noEnd : ¬ ['*', '/'] <:+: chars) :
    stripFrom (.block before) (chars ++ '*' :: '/' :: rest) = chars ++ '*' :: '/' :: stripFrom (.plain '/') rest := by
  induction chars generalizing before with
  | nil => simp [stripFrom]
  | cons c chars ih =>
    have here : ¬ (before = '*' ∧ c = '/') := by simpa using apart
    have next : ¬ (c = '*' ∧ chars.head? = some '/') := by
      rintro ⟨rfl, slash⟩
      obtain ⟨more, rfl⟩ := List.head?_eq_some_iff.mp slash
      exact noEnd ⟨[], more, rfl⟩
    have later : ¬ ['*', '/'] <:+: chars := fun found => noEnd (found.trans (List.suffix_cons c chars).isInfix)
    rw [List.cons_append, stripFrom, if_neg (by simpa using here), ih next later, List.cons_append]

theorem stripFrom_name {name : List Char} (isName : name.map Char.toLower = ['u', 'r', 'l']) :
    stripFrom (.plain before) (name ++ '(' :: rest) = name ++ '(' :: stripFrom (.plain '(') rest := by
  have letters : ∀ c ∈ name, c ≠ '"' ∧ c ≠ '\'' ∧ c ≠ '/' := by
    intro c member
    have lower : c.toLower ∈ ['u', 'r', 'l'] := isName ▸ List.mem_map_of_mem member
    refine ⟨?_, ?_, ?_⟩ <;> rintro rfl <;> revert lower <;> decide
  have inFront : ∀ c ∈ name ++ ['('], c ≠ '"' ∧ c ≠ '\'' ∧ c ≠ '/' :=
    List.forall_mem_append.mpr ⟨letters, List.forall_mem_singleton.mpr (by decide)⟩
  have opened : stripFrom (.plain before) (name ++ ['('] ++ rest) =
      name ++ ['('] ++ stripFrom (.plain (lastOf before (name ++ ['(']))) rest :=
    stripFrom_quiet (fun c member => ⟨(inFront c member).1, (inFront c member).2.1⟩)
      (quiet_of_noSlash fun c member => (inFront c member).2.2)
  simpa using opened

theorem exists_splits {segment : Segment} (notCalm : ¬ segment.Calm) : ∃ front back, Splits segment front back := by
  cases segment with
  | block body =>
    obtain ⟨more, rfl⟩ := List.head?_eq_some_iff.mp (not_ne_iff.mp notCalm)
    exact ⟨_, _, .block more⟩
  | url name body =>
    obtain ⟨front, c, back, rfl, first, mark⟩ := (quiet_or_mark '(' body).resolve_left notCalm
    exact ⟨_, _, .url first mark⟩
  | plain | quoted | line => exact absurd trivial notCalm

theorem Splits.text_eq {segment : Segment} {front back : List Char} (splits : Splits segment front back) :
    segment.text = front ++ back := by
  cases splits <;> simp [Segment.text]

theorem stripFrom_splits {segment : Segment} {front back : List Char} (formed : segment.Formed)
    (splits : Splits segment front back) :
    stripFrom (.plain before) (segment.text ++ rest) = front ++ strip (back ++ rest) := by
  rw [splits.text_eq, List.append_assoc]
  cases splits with
  | block body => simp [stripFrom, stripFrom_plain]
  | @url name front back c first mark =>
    obtain ⟨isName, inside⟩ := formed
    have noQuotes : ∀ c ∈ front, c ≠ '"' ∧ c ≠ '\'' := fun c member =>
      ⟨(inside c (List.mem_append_left _ member)).2.1, (inside c (List.mem_append_left _ member)).2.2.1⟩
    have marked : stripFrom (.plain (lastOf '(' front)) ('/' :: c :: (back ++ [')'] ++ rest)) =
        strip ('/' :: c :: (back ++ [')'] ++ rest)) := by
      rcases mark with rfl | ⟨-, noColon⟩
      · simp [strip, stripFrom]
      · exact stripFrom_plain noColon _
    simp only [List.cons_append, List.append_assoc] at marked ⊢
    rw [stripFrom_name isName, stripFrom_quiet noQuotes (by simpa using first), marked]

theorem stripFrom_calm {segment : Segment} (formed : segment.Formed) (calm : segment.Calm)
    (noLine : segment.isLine = false) : stripFrom (.plain before) (segment.text ++ rest) =
      segment.text ++ stripFrom (.plain (lastOf before segment.text)) rest := by
  cases segment with
  | plain chars =>
    exact stripFrom_quiet (fun c member => ⟨(formed c member).1, (formed c member).2.1⟩)
      (quiet_of_noSlash fun c member => (formed c member).2.2)
  | quoted quote body =>
    obtain ⟨isQuote, closed⟩ := formed
    have noEscape : quote ≠ '\\' := by rcases isQuote with rfl | rfl <;> decide
    have opened : stripFrom (.plain before) (quote :: (body ++ quote :: rest)) =
        quote :: stripFrom (.quoted quote) (body ++ quote :: rest) := by
      rw [stripFrom, if_pos (by simpa using isQuote)]
    simp only [Segment.text, List.cons_append, List.append_assoc, List.nil_append, lastOf_cons, lastOf_concat]
    rw [opened, stripFrom_quoted closed noEscape]
  | block body =>
    have opened : stripFrom (.plain before) ('/' :: '*' :: (body ++ '*' :: '/' :: rest)) =
        '/' :: '*' :: stripFrom (.block '*') (body ++ '*' :: '/' :: rest) := by simp [stripFrom]
    have last : lastOf '*' (body ++ ['*', '/']) = '/' := by
      rw [show body ++ ['*', '/'] = body ++ ['*'] ++ ['/'] by simp, lastOf_concat]
    simp only [Segment.text, List.cons_append, List.append_assoc, List.nil_append, lastOf_cons, last]
    rw [opened, stripFrom_block (fun ⟨_, slash⟩ => calm slash) formed]
  | url name body =>
    obtain ⟨isName, inside⟩ := formed
    have closed : Quiet '(' (body ++ [')']) := quiet_concat calm (by decide) (by decide)
    have noQuotes : ∀ c ∈ body, c ≠ '"' ∧ c ≠ '\'' := fun c member => ⟨(inside c member).2.1, (inside c member).2.2.1⟩
    have ended : stripFrom (.plain (lastOf '(' body)) (')' :: rest) = ')' :: stripFrom (.plain ')') rest := by
      simp [stripFrom]
    have last : lastOf before (name ++ '(' :: (body ++ [')'])) = ')' := by
      rw [lastOf_append, lastOf_cons, lastOf_concat]
    simp only [Segment.text, last, List.cons_append, List.append_assoc, List.nil_append]
    rw [stripFrom_name isName, stripFrom_quiet noQuotes (by simpa using closed), ended]
  | line body => cases noLine

theorem stripFrom_front {front back : List Segment} (follow : Follow before (front ++ back))
    (calm : ∀ segment ∈ front, segment.Calm) : stripFrom (.plain before) (textOf (front ++ back)) =
      keptOf front ++ stripFrom (.plain (lastOf before (textOf front))) (textOf back) := by
  -- between two segments only the last character is known of what was read
  induction front generalizing before with
  | nil => rfl
  | cons segment front ih =>
    rw [List.cons_append] at follow
    obtain ⟨formed, ends, later⟩ := follow
    obtain ⟨isCalm, calm⟩ := List.forall_mem_cons.mp calm
    have last : lastOf before (textOf (segment :: front)) = lastOf (lastOf before segment.text) (textOf front) := by
      rw [textOf_cons, lastOf_append]
    have here := ih later calm
    rw [List.cons_append, textOf_cons, last]
    cases isLine : segment.isLine with
    | false =>
      have kept : segment.kept = segment.text := by cases segment <;> first | rfl | cases isLine
      rw [stripFrom_calm formed isCalm isLine, here, keptOf_cons, kept, List.append_assoc]
    | true =>
      obtain ⟨body, rfl⟩ : ∃ body, segment = .line body := by
        cases segment <;> first | exact ⟨_, rfl⟩ | cases isLine
      obtain ⟨noColon, atEnd⟩ := ends isLine
      have inLine : '\n' ∉ '/' :: body := by simpa [Segment.Formed] using formed
      have opened : stripFrom (.plain before) ((Segment.line body).text ++ textOf (front ++ back)) =
          stripFrom .line ('/' :: body ++ textOf (front ++ back)) := by simp [Segment.text, stripFrom, noColon]
      rw [opened, stripFrom_line inLine atEnd, ← stripFrom_lineEnd atEnd, here]
      rfl

theorem follow_segment {front back : List Segment} {segment : Segment} (follow : Follow before (front ++ segment :: back)) :
    segment.Formed := by
  induction front generalizing before with
  | nil => exact follow.1
  | cons first front ih => exact ih follow.2.2

theorem strip_pair_ne (chars rest : List Char) : strip ('/' :: '/' :: chars) ≠ '/' :: rest := by
  have opened : strip ('/' :: '/' :: chars) = stripFrom .line ('/' :: chars) := by simp [strip, stripFrom]
  have noSlash : ∀ chars, stripFrom .line chars ≠ '/' :: rest := by
    intro chars
    induction chars with
    | nil => simp [stripFrom]
    | cons c chars ih =>
      rw [stripFrom]
      split
      · next isEnd =>
        obtain rfl := beq_iff_eq.mp isEnd
        simp
      · exact ih
  rw [opened]
  exact noSlash _

/-- Of a text that is a sequence of segments, just the line comments are taken out if all segments are calm. If not, the text
is read up to the first mark in the first segment that is not, and from there on as if it began there: the line comments and
nothing else are taken out just if nothing is taken out of the rest of that segment and only line comments of what is behind
it. So it never is where that mark is two slashes. -/
theorem strip_segments {segments : List Segment} (follow : Follow '\n' segments) :
    ((∀ segment ∈ segments, segment.Calm) → strip (textOf segments) = keptOf segments) ∧
    ∀ calm segment others, segments = calm ++ segment :: others → (∀ other ∈ calm, other.Calm) → ¬ segment.Calm →
      ∃ front back, Splits segment front back ∧
        strip (textOf segments) = keptOf calm ++ front ++ strip (back ++ textOf others) ∧
        (strip (textOf segments) = keptOf segments ↔ strip (back ++ textOf others) = back ++ keptOf others) ∧
        (['/', '/'] <+: back → strip (textOf segments) ≠ keptOf segments) := by
  constructor
  · intro calm
    rw [← List.append_nil segments] at follow ⊢
    rw [strip, stripFrom_front follow calm, keptOf_append]
    simp [textOf, keptOf, stripFrom]
  · rintro calm segment others rfl isCalm notCalm
    obtain ⟨front, back, splits⟩ := exists_splits notCalm
    have noLine : segment.kept = segment.text := by cases splits <;> rfl
    have read : strip (textOf (calm ++ segment :: others)) = keptOf calm ++ front ++ strip (back ++ textOf others) := by
      rw [strip, stripFrom_front follow isCalm, textOf_cons, stripFrom_splits (follow_segment follow) splits,
        List.append_assoc]
    have kept : keptOf (calm ++ segment :: others) = keptOf calm ++ front ++ (back ++ keptOf others) := by
      rw [keptOf_append, keptOf_cons, noLine, splits.text_eq]
      simp only [List.append_assoc]
    have same : strip (textOf (calm ++ segment :: others)) = keptOf (calm ++ segment :: others) ↔
        strip (back ++ textOf others) = back ++ keptOf others := by
      rw [read, kept, List.append_cancel_left_eq]
    refine ⟨front, back, splits, read, same, fun pair => ?_⟩
    obtain ⟨chars, rfl⟩ := pair
    rw [Ne, same]
    exact strip_pair_ne _ _

def linked : List Segment :=
  [.plain ['f', ':'], .url ['u', 'r', 'l'] ['a', ':', '/', '/', 'b'], .line [':', 'c'], .plain ['\n', 'd']]

def slashed : List Segment := [.plain ['a'], .block ['/', ' ', '/', '/', 'b'], .plain ['c']]

theorem strip_segments_linked :
    Follow '\n' linked ∧ strip (textOf linked) = keptOf linked ∧
      Follow '\n' slashed ∧ strip (textOf slashed) = ['a', '/', '*', '/', ' '] ∧ strip (textOf slashed) ≠ keptOf slashed := by
  have linkedFollow : Follow '\n' linked := by
    simp [Follow, linked, Segment.Formed, Segment.isLine, Segment.text, textOf, lastOf, Scan.isSpace, Scan.isNewline]
  have slashedFollow : Follow '\n' slashed := by
    have noEnd : ¬ ['*', '/'] <:+: ['/', ' ', '/', '/', 'b'] := by decide
    simp [Follow, slashed, Segment.Formed, Segment.isLine, noEnd]
  have calm : ∀ segment ∈ linked, segment.Calm := by
    simp [linked, Segment.Calm, Quiet]
  obtain ⟨front, back, splits, read, same, -⟩ := (strip_segments slashedFollow).2 [.plain ['a']] _ [.plain ['c']] rfl
    (by simp [Segment.Calm]) (by simp [Segment.Calm])
  cases splits
  exact ⟨linkedFollow, (strip_segments linkedFollow).1 calm, slashedFollow, read.trans (by decide), by rw [Ne, same]; decide⟩

end MapStyle.LineComment
