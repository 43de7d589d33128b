/-!
The characters of a text with their places, which carry the structure of a YAML document.
-/
namespace MapStyle.Document.Yaml

/-- A character with its line, its column and the number of bytes in front of it. -/
structure Spot where
  char : Char
  line : Nat
  column : Nat
  offset : Nat

namespace Spot

def isBreak (c : Char) : Bool := c == '\n' || c == '\u2028' || c == '\u2029'

def place (line column offset : Nat) : List Char → List Spot
  | [] => []
  | c :: cs =>
    ⟨c, line, column, offset⟩ ::
      if isBreak c then place (line + 1) 0 (offset + c.utf8Size) cs else place line (column + 1) (offset + c.utf8Size) cs

/-- Carriage returns and next-line characters as line feeds; the separators of Unicode stay what they are. -/
def unifyBreaks : List Char → List Char
  | [] => []
  | '\r' :: '\n' :: cs => '\n' :: unifyBreaks cs
  | c :: cs => (if c == '\r' || c == '\x85' then '\n' else c) :: unifyBreaks cs

def isAllowed (c : Char) : Bool :=
  let n := c.toNat
  c == '\t' || c == '\n' || c == '\r' || (0x20 ≤ n && n ≤ 0x7E) || n == 0x85 || (0xA0 ≤ n && n ≤ 0xFFFD) || 0x10000 ≤ n

def ofText? (s : String) : Option (List Spot) :=
  if s.toList.all isAllowed then some (place 0 0 0 (unifyBreaks s.toList)) else none

def isBlank (c : Char) : Bool := c == ' ' || c == '\t'

def atBreak : List Spot → Bool
  | [] => true
  | spot :: _ => isBreak spot.char

def atBlank : List Spot → Bool
  | [] => true
  | spot :: _ => isBlank spot.char || isBreak spot.char

def startsWith (c : Char) (spots : List Spot) : Bool := spots.head?.any fun spot => spot.char == c

def atMarker (c : Char) : List Spot → Bool
  | x :: y :: z :: rest => x.column == 0 && x.char == c && y.char == c && z.char == c && atBlank rest
  | _ => false

def atBoundary (spots : List Spot) : Bool := atMarker '-' spots || atMarker '.' spots

def skipBlanks (spots : List Spot) : List Spot := spots.dropWhile fun spot => isBlank spot.char

/-- The rest of a line on which nothing but blanks and a comment may stand, its line break left out. -/
def endLine? (spots : List Spot) : Option (List Spot) :=
  let spots := skipBlanks spots
  let spots := if startsWith '#' spots then spots.dropWhile fun spot => !isBreak spot.char else spots
  if atBreak spots then some spots.tail else none

end Spot
end MapStyle.Document.Yaml
