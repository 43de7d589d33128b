import MapStyle.Document.Yaml.Spot
import MapStyle.Document.Yaml.Token
import MapStyle.Text.Characters
/-!
Anchors, tags and directives: what is told about nodes and documents besides their content.
-/
namespace MapStyle.Document.Yaml
open Text

def isWordChar (c : Char) : Bool := c.isAlphanum || c == '_' || c == '-'

def run (p : Char → Bool) (spots : List Spot) : List Char × List Spot :=
  ((spots.takeWhile fun spot => p spot.char).map Spot.char, spots.dropWhile fun spot => p spot.char)

def endsAnchor (c : Char) : Bool := ['?', ':', ',', ']', '\x7d', '%', '@', '\x60'].contains c

def anchorId? (spots : List Spot) : Option (String × List Spot) :=
  let (id, rest) := run isWordChar spots
  if !id.isEmpty && (Spot.atBlank rest || rest.head?.any fun next => endsAnchor next.char) then
    some (String.ofList id, rest)
  else none

/-- The characters of a tag; within angle brackets there may be marks of the flow. -/
def isTagChar (bracketed : Bool) (c : Char) : Bool :=
  isWordChar c ||
    [';', '/', '?', ':', '@', '&', '=', '+', '$', '.', '%', '!', '~', '*', '\'', '(', ')'].contains c ||
    (bracketed && [',', '[', ']'].contains c)

/-- The bytes of the characters of a tag; a percent sign and two hexadecimal digits are one. -/
def tagBytes? : List Char → Option (List UInt8)
  | [] => some []
  | '%' :: high :: low :: rest =>
    if isHexDigit high && isHexDigit low then (tagBytes? rest).map (UInt8.ofNat (hexNumber [high, low]) :: ·) else none
  | c :: rest => if c == '%' then none else (tagBytes? rest).map (UInt8.ofNat c.toNat :: ·)

def tagText? (cs : List Char) : Option String :=
  (tagBytes? cs).bind fun bytes => String.fromUTF8? ⟨bytes.toArray⟩

def tagPart? (bracketed : Bool) (spots : List Spot) : Option (String × List Spot) := do
  let (cs, rest) := run (isTagChar bracketed) spots
  if cs.isEmpty then none else return (← tagText? cs, rest)

/-- A tag from behind its first exclamation mark on: complete within angle brackets, behind a handle, or local. -/
def tagToken? (spots : List Spot) : Option (Token × List Spot) :=
  if Spot.startsWith '<' spots then do
    let (uri, rest) ← tagPart? true spots.tail
    if Spot.startsWith '>' rest then some (.tag "" uri, rest.tail) else none
  else
    let (word, rest) := run isWordChar spots
    if Spot.startsWith '!' rest then do
      let (suffix, rest) ← tagPart? false rest.tail
      return (.tag ("!" ++ String.ofList word ++ "!") suffix, rest)
    else do
      let (cs, rest) := run (isTagChar false) spots
      let suffix ← tagText? cs
      return (if suffix.isEmpty then .tag "" "!" else .tag "!" suffix, rest)

def tag? (inFlow : Bool) (spots : List Spot) : Option (Token × List Spot) := do
  let (token, rest) ← tagToken? spots
  if Spot.atBlank rest || (inFlow && Spot.startsWith ',' rest) then some (token, rest) else none

def versionNumber? (spots : List Spot) : Option (Nat × List Spot) :=
  let (digits, rest) := run Char.isDigit spots
  if digits.isEmpty || 9 < digits.length then none
  else some (digits.foldl (fun n c => 10 * n + (c.toNat - '0'.toNat)) 0, rest)

def version? (spots : List Spot) : Option (Token × List Spot) := do
  let (major, rest) ← versionNumber? spots
  if Spot.startsWith '.' rest then
    let (minor, rest) ← versionNumber? rest.tail
    return (.version major minor, rest)
  else none

def tagShort? (spots : List Spot) : Option (Token × List Spot) := do
  if !Spot.startsWith '!' spots then none
  else
    let (word, rest) := run isWordChar spots.tail
    let closed := Spot.startsWith '!' rest
    let handle := "!" ++ String.ofList word ++ (if closed then "!" else "")
    let rest := if closed then rest.tail else rest
    if (!closed && !word.isEmpty) || Spot.atBreak rest || !Spot.atBlank rest then none
    else
      let (long, rest) ← tagPart? true (Spot.skipBlanks rest)
      if Spot.atBlank rest then some (.tagShort handle long, rest) else none

def directive? (spots : List Spot) : Option (Token × List Spot) := do
  let (word, rest) := run isWordChar spots
  if !Spot.atBlank rest then none
  else
    let (token, rest) ← match String.ofList word with
      | "YAML" => version? (Spot.skipBlanks rest)
      | "TAG" => tagShort? (Spot.skipBlanks rest)
      | _ => none
    return (token, ← Spot.endLine? rest)

end MapStyle.Document.Yaml
