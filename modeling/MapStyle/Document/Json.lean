import MapStyle.Document.Basic
import MapStyle.Number.Decimal
import MapStyle.Number.Scaled
import MapStyle.Text.Characters
/-!
Reading JSON, one character after the other. What is open is kept on a stack of frames, innermost first.
-/
namespace MapStyle.Document.Json
open Text

/-- What is open: the items of a list or the fields of a record so far, last first, and the name of the field that is
being read. -/
inductive Frame where
  | list (items : List Document)
  | record (fields : List (Document × Document)) (name : Document)

inductive Expected where
  | value
  | valueOrEnd
  | name
  | nameOrEnd
  | colon
  | separator
deriving DecidableEq

/-- Where a character stands: between tokens, in a word, in a string, after its backslash, or in an escape of four
digits. Of a string the UTF-16 units are kept, of a word the characters, both last first. -/
inductive Inside where
  | nothing
  | word (read : List Char)
  | string (units : List Nat)
  | escape (units : List Nat)
  | hex (units : List Nat) (digits : List Char)

/-- `root` is the document itself once it is complete. -/
structure State where
  frames : List Frame
  expected : Expected
  inside : Inside
  root : Option Document

namespace State

def start : State := ⟨[], .value, .nothing, none⟩

def addValue (state : State) (value : Document) : Option State :=
  if state.expected != .value && state.expected != .valueOrEnd then none
  else match state.frames with
    | .list items :: rest => some { state with frames := .list (value :: items) :: rest, expected := .separator }
    | .record fields name :: rest =>
      some { state with frames := .record ((name, value) :: fields) .null :: rest, expected := .separator }
    | [] => some { state with root := some value, expected := .separator }

def addString (state : State) (string : Document) : Option State :=
  match state.expected, state.frames with
  | .name, .record fields _ :: rest | .nameOrEnd, .record fields _ :: rest =>
    some { state with frames := .record fields string :: rest, expected := .colon }
  | _, _ => state.addValue string

def closeList (state : State) : Option State :=
  match state.frames with
  | .list items :: rest =>
    if state.expected = .separator ∨ state.expected = .valueOrEnd then
      { state with frames := rest, expected := .value }.addValue (.list items.reverse)
    else none
  | _ => none

def closeRecord (state : State) : Option State :=
  match state.frames with
  | .record fields _ :: rest =>
    if state.expected = .separator ∨ state.expected = .nameOrEnd then
      { state with frames := rest, expected := .value }.addValue (.record fields.reverse)
    else none
  | _ => none

def openFrame (state : State) (frame : Frame) (expected : Expected) : Option State :=
  if state.expected = .value ∨ state.expected = .valueOrEnd then
    some { state with frames := frame :: state.frames, expected }
  else none

def comma (state : State) : Option State :=
  match state.expected, state.frames with
  | .separator, .list _ :: _ => some { state with expected := .value }
  | .separator, .record _ _ :: _ => some { state with expected := .name }
  | _, _ => none

def colon (state : State) : Option State :=
  if state.expected = .colon then some { state with expected := .value } else none

end State

def isBlank (c : Char) : Bool := c == ' ' || c == '\t' || c == '\n' || c == '\r'

def isPunctuation (c : Char) : Bool := ['[', ']', '\x7b', '\x7d', ',', ':'].contains c

def isWhole (digits : List Char) : Bool :=
  !digits.isEmpty && digits.all Char.isDigit && (digits.head? != some '0' || digits.length == 1)

/-- Whole numbers are kept exactly where they fit into 64 bits, zero with a minus sign excepted. -/
def wholeNumber (negative : Bool) (digits : List Char) : Option Document :=
  let value := Decimal.digitsValue digits
  if !negative && value < twoTo 64 then some (.whole false value)
  else if negative && 0 < value && value ≤ twoTo 63 then some (.whole true value)
  else none

def fractionNumber (negative : Bool) (whole part : List Char) (exponent : Int) : Document :=
  match Number.Scaled.ofDigits? whole part exponent with
  | some steps => .fraction (.finite negative steps)
  | none => .unusable

def number? (cs : List Char) : Option Document :=
  let (negative, cs) := match cs with
    | '-' :: rest => (true, rest)
    | cs => (false, cs)
  let whole := cs.takeWhile Char.isDigit
  if !isWhole whole then none
  else match cs.dropWhile Char.isDigit with
    | [] => some ((wholeNumber negative whole).getD (fractionNumber negative whole [] 0))
    | '.' :: rest =>
      let part := rest.takeWhile Char.isDigit
      if part.isEmpty then none
      else (Decimal.readExponent? (rest.dropWhile Char.isDigit)).map (fractionNumber negative whole part)
    | rest => (Decimal.readExponent? rest).map (fractionNumber negative whole [])

def word? (cs : List Char) : Option Document :=
  match String.ofList cs with
  | "null" => some .null
  | "true" => some (.boolean true)
  | "false" => some (.boolean false)
  | _ => number? cs

def isHighHalf (unit : Nat) : Bool := 0xD800 ≤ unit && unit < 0xDC00

def isLowHalf (unit : Nat) : Bool := 0xDC00 ≤ unit && unit < 0xE000

/-- The characters of a list of units, the halves of a pair joined; none when a half stands alone. -/
def charsOfUnits? : List Nat → Option (List Char)
  | [] => some []
  | high :: low :: rest =>
    if isHighHalf high then
      if isLowHalf low then
        (charsOfUnits? rest).map (Char.ofNat (0x10000 + 0x400 * (high - 0xD800) + (low - 0xDC00)) :: ·)
      else none
    else if isLowHalf high then none
    else (charsOfUnits? (low :: rest)).map (Char.ofNat high :: ·)
  | [unit] => if isHighHalf unit || isLowHalf unit then none else some [Char.ofNat unit]

def ofUnits (units : List Nat) : Document :=
  match charsOfUnits? units with
  | some chars => .text (String.ofList chars)
  | none => .unusable

def letterEscapes : List (Char × Char) :=
  [('"', '"'), ('\\', '\\'), ('/', '/'), ('b', '\x08'), ('f', '\x0c'), ('n', '\n'), ('r', '\r'), ('t', '\t')]

def State.endWord (state : State) : Option State :=
  match state.inside with
  | .word read => (word? read.reverse).bind { state with inside := .nothing }.addValue
  | _ => some state

def State.between (state : State) (c : Char) : Option State :=
  match c with
  | '"' => some { state with inside := .string [] }
  | '[' => state.openFrame (.list []) .valueOrEnd
  | ']' => state.closeList
  | '\x7b' => state.openFrame (.record [] .null) .nameOrEnd
  | '\x7d' => state.closeRecord
  | ',' => state.comma
  | ':' => state.colon
  | c => some (if isBlank c then state else { state with inside := .word [c] })

def State.read (state : State) (c : Char) : Option State :=
  match state.inside with
  | .nothing => state.between c
  | .word read =>
    if isBlank c || isPunctuation c || c == '"' then state.endWord.bind fun state => state.between c
    else some { state with inside := .word (c :: read) }
  | .string units =>
    if c == '"' then { state with inside := .nothing }.addString (ofUnits units.reverse)
    else if c == '\\' then some { state with inside := .escape units }
    else if c.toNat < 0x20 then none
    else some { state with inside := .string (c.toNat :: units) }
  | .escape units =>
    if c == 'u' then some { state with inside := .hex units [] }
    else (letterEscapes.lookup c).map fun unit => { state with inside := .string (unit.toNat :: units) }
  | .hex units digits =>
    if !isHexDigit c then none
    else if digits.length = 3 then
      some { state with inside := .string (hexNumber (c :: digits).reverse :: units) }
    else some { state with inside := .hex units (c :: digits) }

def State.finish (state : State) : Option Document :=
  match state.inside with
  | .nothing | .word _ => state.endWord.bind fun state => state.root
  | _ => none

end Json

def ofJson? (s : String) : Option Document :=
  (s.toList.foldlM Json.State.read Json.State.start).bind Json.State.finish

end MapStyle.Document
