import MapStyle.Text.Characters
/-!
Splitting a stylesheet into the tokens of CSS. Each scanner takes the characters that follow what it knows
already, and answers with what it read and how many characters that took.
-/
namespace MapStyle.Scan
open Text

def isNewline (c : Char) : Bool := c == '\n' || c == '\r' || c == '\x0c'

def isSpace (c : Char) : Bool := c == ' ' || c == '\t' || isNewline c

def isNameStart (c : Char) : Bool := c.isAlpha || c == '_' || c == '\x00' || 0x80 ≤ c.toNat

def isNameChar (c : Char) : Bool := isNameStart c || c.isDigit || c == '-'

def replacement : Char := '\uFFFD'

def startsNewline : List Char → Bool
  | c :: _ => isNewline c
  | [] => false

def startsDigit : List Char → Bool
  | c :: _ => c.isDigit
  | [] => false

/-- The length of the line break in front: two characters when it is a carriage return with its line feed. -/
def newlineLength : List Char → Nat
  | '\r' :: '\n' :: _ => 2
  | c :: _ => if isNewline c then 1 else 0
  | [] => 0

/-- Line feeds, form feeds and carriage returns, a carriage return counting together with the line feed after it. -/
def lineBreaks : List Char → Nat
  | [] => 0
  | c :: cs => (if isNewline c && !(c == '\r' && cs.head? == some '\n') then 1 else 0) + lineBreaks cs

def startsName : List Char → Bool
  | '-' :: c :: _ => isNameStart c || c == '-' || c == '\\'
  | '\\' :: cs => !startsNewline cs
  | c :: _ => isNameStart c
  | [] => false

def charOfCode (n : Nat) : Char := if n ≠ 0 ∧ n.isValidChar then Char.ofNat n else replacement

def escape : List Char → Char × Nat
  | [] => (replacement, 0)
  | c :: cs =>
    if isHexDigit c then
      let digits := ((c :: cs).take 6).takeWhile isHexDigit
      let rest := (c :: cs).drop digits.length
      let blank := match rest with
        | ' ' :: _ | '\t' :: _ => 1
        | rest => newlineLength rest
      (charOfCode (hexNumber digits), digits.length + blank)
    else if c == '\x00' then (replacement, 1)
    else (c, 1)

def name (cs : List Char) : List Char × Nat :=
  match cs with
  | [] => ([], 0)
  | c :: cs =>
    if c == '\\' then
      if startsNewline cs then ([], 0)
      else
        let (char, k) := escape cs
        let (rest, n) := name (cs.drop k)
        (char :: rest, 1 + k + n)
    else if isNameChar c then
      let (rest, n) := name cs
      ((if c == '\x00' then replacement else c) :: rest, 1 + n)
    else ([], 0)
termination_by cs.length
decreasing_by all_goals (simp only [List.length_drop, List.length_cons]; omega)

def string (quote : Char) (cs : List Char) : Option (List Char) × Nat :=
  match cs with
  | [] => (some [], 0)
  | c :: cs =>
    if c == quote then (some [], 1)
    else if isNewline c then (none, 0)
    else if c == '\\' then
      if cs.isEmpty then (some [], 1)
      else if startsNewline cs then
        let k := newlineLength cs
        let (rest, n) := string quote (cs.drop k)
        (rest, 1 + k + n)
      else
        let (char, k) := escape cs
        let (rest, n) := string quote (cs.drop k)
        (rest.map (char :: ·), 1 + k + n)
    else
      let (rest, n) := string quote cs
      (rest.map ((if c == '\x00' then replacement else c) :: ·), 1 + n)
termination_by cs.length
decreasing_by all_goals (simp only [List.length_drop, List.length_cons]; omega)

def digits (cs : List Char) : Nat := (cs.takeWhile Char.isDigit).length

def exponentLength : List Char → Nat
  | c :: rest =>
    if c == 'e' || c == 'E' then
      match rest with
      | '+' :: ds | '-' :: ds => if startsDigit ds then 2 + digits ds else 0
      | ds => if startsDigit ds then 1 + digits ds else 0
    else 0
  | [] => 0

def fractionLength : List Char → Nat
  | '.' :: ds => if startsDigit ds then 1 + digits ds else 0
  | _ => 0

def unsignedLength (cs : List Char) : Nat :=
  let whole := digits cs
  let part := fractionLength (cs.drop whole)
  whole + part + exponentLength (cs.drop (whole + part))

def startsNumber : List Char → Bool
  | '.' :: ds => startsDigit ds
  | ds => startsDigit ds

def spoilsUrl (c : Char) : Bool :=
  let n := c.toNat
  c == '"' || c == '\'' || c == '(' || (1 ≤ n && n ≤ 8) || n == 0x0B || (0x0E ≤ n && n ≤ 0x1F) || n == 0x7F

def spoiltUrl : List Char → Nat
  | [] => 0
  | ')' :: _ => 1
  | '\\' :: ')' :: cs => 2 + spoiltUrl cs
  | '\\' :: '\\' :: cs => 2 + spoiltUrl cs
  | _ :: cs => 1 + spoiltUrl cs

def urlBody (cs : List Char) : Option (List Char) × Nat :=
  match cs with
  | [] => (some [], 0)
  | c :: cs =>
    if c == ')' then (some [], 1)
    else if isSpace c then
      let n := 1 + (cs.takeWhile isSpace).length
      match cs.dropWhile isSpace with
      | [] => (some [], n)
      | ')' :: _ => (some [], n + 1)
      | _ :: rest => (none, n + 1 + spoiltUrl rest)
    else if spoilsUrl c then (none, 1 + spoiltUrl cs)
    else if c == '\\' then
      if startsNewline cs then (none, 1 + spoiltUrl cs)
      else
        let (char, k) := escape cs
        let (rest, n) := urlBody (cs.drop k)
        (rest.map (char :: ·), 1 + k + n)
    else
      let (rest, n) := urlBody cs
      (rest.map ((if c == '\x00' then replacement else c) :: ·), 1 + n)
termination_by cs.length
decreasing_by all_goals (simp only [List.length_drop, List.length_cons]; omega)

def comment : List Char → Nat
  | [] => 0
  | '*' :: '/' :: _ => 2
  | _ :: cs => 1 + comment cs

/-- What opens a block: a function name with its parenthesis, or one of the brackets. -/
inductive Bracket where
  | call (name : String)
  | round
  | square
  | curly
deriving DecidableEq

def Bracket.closing : Bracket → Char
  | .call _ | .round => ')'
  | .square => ']'
  | .curly => '}'

/-- What kind of token was read, with the text that is not simply its characters. -/
inductive Shape where
  | word (text : String)
  | atWord (text : String)
  | hash (text : String)
  | quoted (text : String)
  | url (text : String)
  | number
  | percentage
  | measure (unit : String)
  | mark (char : Char)
  | colon
  | semicolon
  | comma
  | blank
  | opening (bracket : Bracket)
  | closing (char : Char)
  | comment
  | other

def numeric (skip : Nat) (cs : List Char) : Shape × Nat :=
  let n := skip + unsignedLength (cs.drop skip)
  let rest := cs.drop n
  match rest with
  | '%' :: _ => (.percentage, n + 1)
  | rest =>
    if startsName rest then
      let (unit, k) := name rest
      (.measure (String.ofList unit), n + k)
    else (.number, n)

def urlLike (word : String) (cs : List Char) : Shape × Nat :=
  let blanks := (cs.takeWhile isSpace).length
  match cs.drop blanks with
  | '"' :: _ | '\'' :: _ => (.opening (.call word), 0)
  | rest =>
    match urlBody rest with
    | (some text, n) => (.url (String.ofList text), blanks + n)
    | (none, n) => (.other, blanks + n)

def nameLike (cs : List Char) : Shape × Nat :=
  let (chars, n) := name cs
  let word := String.ofList chars
  match cs.drop n with
  | '(' :: rest =>
    if String.ofList (chars.map Char.toLower) == "url" then
      let (shape, k) := urlLike word rest
      (shape, n + 1 + k)
    else (.opening (.call word), n + 1)
  | _ => (.word word, n)

def quotedLike (quote : Char) (cs : List Char) : Shape × Nat :=
  match string quote cs with
  | (some text, n) => (.quoted (String.ofList text), n)
  | (none, n) => (.other, n)

def token (c : Char) (cs : List Char) : Shape × Nat :=
  let pair (d : Char) : Shape × Nat := if cs.head? == some d then (.other, 1) else (.mark c, 0)
  let named : Shape × Nat := let (shape, n) := nameLike (c :: cs); (shape, n - 1)
  let signed : Option (Shape × Nat) :=
    if startsNumber cs then let (shape, n) := numeric 1 (c :: cs); some (shape, n - 1) else none
  match c with
  | '"' | '\'' => quotedLike c cs
  | '#' =>
    if startsName cs || startsDigit cs || cs.head? == some '-' then
      let (text, n) := name cs
      (.hash (String.ofList text), n)
    else (.mark c, 0)
  | '@' =>
    if startsName cs then
      let (text, n) := name cs
      (.atWord (String.ofList text), n)
    else (.mark c, 0)
  | '(' => (.opening .round, 0)
  | '[' => (.opening .square, 0)
  | '{' => (.opening .curly, 0)
  | ')' | ']' | '}' => (.closing c, 0)
  | ',' => (.comma, 0)
  | ':' => (.colon, 0)
  | ';' => (.semicolon, 0)
  | '$' | '*' | '^' | '|' | '~' => pair '='
  | '+' => signed.getD (.mark c, 0)
  | '-' =>
    signed.getD
      (if cs.take 2 == ['-', '>'] then (.other, 2)
      else if startsName (c :: cs) then named
      else (.mark c, 0))
  | '.' => if startsDigit cs then let (shape, n) := numeric 0 (c :: cs); (shape, n - 1) else (.mark c, 0)
  | '/' => if cs.head? == some '*' then (.comment, 1 + comment (cs.drop 1)) else (.mark c, 0)
  | '<' => if cs.take 3 == ['!', '-', '-'] then (.other, 3) else (.mark c, 0)
  | '\\' => if startsNewline cs then (.mark c, 0) else named
  | c =>
    if isSpace c then (.blank, (cs.takeWhile isSpace).length)
    else if c.isDigit then let (shape, n) := numeric 0 (c :: cs); (shape, n - 1)
    else if isNameStart c then named
    else (.mark c, 0)

/-- A token with its characters and the line on which it starts. -/
structure Piece where
  shape : Shape
  raw : List Char
  line : Nat

def pieces (line : Nat) (cs : List Char) : List Piece :=
  match cs with
  | [] => []
  | c :: cs =>
    let (shape, n) := token c cs
    let raw := c :: cs.take n
    ⟨shape, raw, line⟩ :: pieces (line + lineBreaks raw) (cs.drop n)
termination_by cs.length
decreasing_by simp only [List.length_drop, List.length_cons]; omega

/-- Leaves the comments out. A comment stays in front of the characters of the token after it, and gives that token
its line; `held` are the comments just read. -/
def joinComments (held : Option (List Char × Nat)) : List Piece → List Piece
  | [] => []
  | piece :: rest =>
    let raw := (held.map Prod.fst).getD [] ++ piece.raw
    let line := (held.map Prod.snd).getD piece.line
    match piece.shape with
    | .comment => joinComments (some (raw, line)) rest
    | shape => ⟨shape, raw, line⟩ :: joinComments none rest

end MapStyle.Scan
