import MapStyle.Sheet.Scan
/-!
The tokens of a stylesheet with its blocks nested: a lexeme is a single token or a bracketed group of lexemes.
-/
namespace MapStyle
open Scan

inductive Token where
  | word (text : String)
  | atWord (text : String)
  | hash (text : String)
  | quoted (text : String)
  | url (text : String)
  | number (text : String)
  | percentage (text : String)
  | measure (text unit : String)
  | mark (char : Char)
  | colon
  | semicolon
  | comma
  | blank
  | other (text : String)
deriving DecidableEq

inductive Lexeme where
  | leaf (token : Token) (line : Nat)
  | group (bracket : Bracket) (items : List Lexeme) (line : Nat)

namespace Lexeme

def line : Lexeme → Nat
  | leaf _ line => line
  | group _ _ line => line

def isToken (token : Token) : Lexeme → Bool
  | leaf t _ => t == token
  | group _ _ _ => false

def isBlank (item : Lexeme) : Bool := item.isToken .blank

def significant (items : List Lexeme) : List Lexeme := items.filter fun item => !item.isBlank

def tokenText : Token → String
  | .word text | .number text | .other text => text
  | .atWord text => "@" ++ text
  | .hash text => "#" ++ text
  | .quoted text => "\"" ++ text ++ "\""
  | .measure text unit => text ++ unit
  | .percentage text => text ++ "%"
  | .url text => "url(" ++ text ++ ")"
  | .mark char => String.singleton char
  | .colon => ":"
  | .semicolon => ";"
  | .comma => ","
  | .blank => " "

def opener : Bracket → String
  | .call name => name ++ "("
  | .round => "("
  | .square => "["
  | .curly => "\x7b"

mutual
/-- The source text of a lexeme, with strings in double quotes and one space for each run of blanks. -/
def text : Lexeme → String
  | leaf token _ => tokenText token
  | group bracket items _ => opener bracket ++ textAll items ++ String.singleton bracket.closing

def textAll : List Lexeme → String
  | [] => ""
  | item :: rest => text item ++ textAll rest
end

def bytePrefix? : (size : Nat) → List Char → Option (List Char)
  | 0, _ => some []
  | _ + 1, [] => none
  | size + 1, c :: cs => if c.utf8Size ≤ size + 1 then (bytePrefix? (size + 1 - c.utf8Size) cs).map (c :: ·) else none

/-- The characters of a number with a unit, less as many bytes as the unit has; all of them if that splits a
character. -/
def measureText (raw : List Char) (unit : String) : List Char :=
  (bytePrefix? ((String.ofList raw).utf8ByteSize - unit.utf8ByteSize) raw).getD raw

def tokenOf (shape : Shape) (raw : List Char) : Token :=
  match shape with
  | .word text => .word text
  | .atWord text => .atWord text
  | .hash text => .hash text
  | .quoted text => .quoted text
  | .url text => .url text
  | .number => .number (String.ofList raw)
  | .percentage => .percentage (String.ofList raw.dropLast)
  | .measure unit => .measure (String.ofList (measureText raw unit)) unit
  | .mark char => .mark char
  | .colon => .colon
  | .semicolon => .semicolon
  | .comma => .comma
  | .blank => .blank
  | _ => .other (String.ofList raw)

/-- A group that is still open, with the lexemes in front of it, last first. -/
structure Frame where
  bracket : Bracket
  line : Nat
  before : List Lexeme

/-- The open groups, innermost first, and the lexemes of the innermost one, last first. -/
structure Nest where
  frames : List Frame
  items : List Lexeme

def Frame.close (frame : Frame) (items : List Lexeme) : List Lexeme :=
  group frame.bracket items.reverse frame.line :: frame.before

namespace Nest

def push (nest : Nest) (item : Lexeme) : Nest := { nest with items := item :: nest.items }

def step (nest : Nest) (piece : Piece) : Nest :=
  match piece.shape with
  | .opening bracket => ⟨⟨bracket, piece.line, nest.items⟩ :: nest.frames, []⟩
  | .closing char =>
    match nest.frames with
    | frame :: frames =>
      if frame.bracket.closing == char then ⟨frames, frame.close nest.items⟩
      else nest.push (leaf (tokenOf piece.shape piece.raw) piece.line)
    | [] => nest.push (leaf (tokenOf piece.shape piece.raw) piece.line)
  | shape => nest.push (leaf (tokenOf shape piece.raw) piece.line)

def finish (nest : Nest) : List Lexeme :=
  (nest.frames.foldl (fun items frame => frame.close items) nest.items).reverse

end Nest

def ofPieces (pieces : List Piece) : List Lexeme := (pieces.foldl Nest.step ⟨[], []⟩).finish

def ofChars (cs : List Char) : List Lexeme := ofPieces (joinComments none (pieces 1 cs))

end Lexeme
end MapStyle
