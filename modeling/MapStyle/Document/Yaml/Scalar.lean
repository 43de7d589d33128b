import MapStyle.Document.Yaml.Spot
import MapStyle.Text.Characters
/-!
The scalars of YAML: plain, in quotes, and as blocks of lines. Texts are built with their last character first.
-/
namespace MapStyle.Document.Yaml
open Text

/-- What was passed since the last character of a scalar. Line breaks swallow the blanks around them. Of the breaks the
first is kept apart, which is missing where a backslash took it; the others are in `later`, last first. -/
inductive Gap where
  | nothing
  | blanks (read : List Char)
  | breaks (first : Option Char) (later : List Char)

namespace Gap

def addBlank (c : Char) : Gap → Gap
  | nothing => blanks [c]
  | blanks read => blanks (c :: read)
  | gap => gap

def addBreak (c : Char) : Gap → Gap
  | nothing | blanks _ => breaks (some c) []
  | breaks first later => breaks first (c :: later)

def isNothing : Gap → Bool
  | nothing => true
  | _ => false

def hasBreaks : Gap → Bool
  | breaks _ _ => true
  | _ => false

def onto (text : List Char) : Gap → List Char
  | nothing => text
  | blanks read => read ++ text
  | breaks (some '\n') [] => ' ' :: text
  | breaks (some '\n') later => later ++ text
  | breaks first later => later ++ first.toList ++ text

end Gap

def letterEscapes : List (Char × Char) :=
  [('0', '\x00'), ('a', '\x07'), ('b', '\x08'), ('t', '\t'), ('\t', '\t'), ('n', '\n'), ('v', '\x0b'), ('f', '\x0c'),
   ('r', '\r'), ('e', '\x1b'), (' ', ' '), ('"', '"'), ('/', '/'), ('\\', '\\'), ('N', '\x85'), ('_', '\xa0'),
   ('L', '\u2028'), ('P', '\u2029')]

def hexEscapes : List (Char × Nat) := [('x', 2), ('u', 4), ('U', 8)]

def charOfHex? (digits : List Char) : Option Char :=
  let n := hexNumber digits
  if digits.all isHexDigit && n.isValidChar then some (Char.ofNat n) else none

def escape? (c : Char) (rest : List Spot) : Option (Char × Nat) :=
  match hexEscapes.lookup c with
  | some size =>
    let digits := (rest.take size).map Spot.char
    if digits.length = size then (charOfHex? digits).map (·, size + 1) else none
  | none => (letterEscapes.lookup c).map (·, 1)

def quotedFrom (quote : Char) (gap : Gap) (text : List Char) (spots : List Spot) : Option (List Char × List Spot) :=
  match spots with
  | [] => none
  | spot :: rest =>
    if Spot.atBoundary (spot :: rest) then none
    else if Spot.isBlank spot.char then quotedFrom quote (gap.addBlank spot.char) text rest
    else if Spot.isBreak spot.char then quotedFrom quote (gap.addBreak spot.char) text rest
    else if spot.char == quote then
      match quote, rest with
      | '\'', next :: after =>
        if next.char == '\'' then quotedFrom quote .nothing ('\'' :: gap.onto text) after
        else some (gap.onto text, next :: after)
      | _, _ => some (gap.onto text, rest)
    else if quote == '"' && spot.char == '\\' then
      match rest with
      | [] => none
      | next :: after =>
        if Spot.isBreak next.char then quotedFrom quote (.breaks none []) (gap.onto text) after
        else match escape? next.char after with
          | some (c, size) => quotedFrom quote .nothing (c :: gap.onto text) ((next :: after).drop size)
          | none => none
    else quotedFrom quote .nothing (spot.char :: gap.onto text) rest
termination_by spots.length
decreasing_by all_goals (simp only [List.length_drop, List.length_cons]; omega)

def isFlowMark (c : Char) : Bool := [',', '[', ']', '\x7b', '\x7d'].contains c

structure PlainScalar where
  text : List Char
  rest : List Spot
  broken : Bool

/-- Reads a plain scalar. It ends before a comment, a colon with a blank after it, a mark of the flow around it, or a
line that starts left of `indent`; blanks and line breaks behind it are passed. No tab may stand in the indentation. -/
def plainFrom (inFlow : Bool) (indent : Nat) (gap : Gap) (text : List Char) : List Spot → Option PlainScalar
  | [] => some ⟨text, [], gap.hasBreaks⟩
  | spot :: rest =>
    let ending : PlainScalar := ⟨text, spot :: rest, gap.hasBreaks⟩
    if Spot.isBlank spot.char then
      if gap.hasBreaks && spot.char == '\t' && spot.column < indent then none
      else plainFrom inFlow indent (gap.addBlank spot.char) text rest
    else if Spot.isBreak spot.char then plainFrom inFlow indent (gap.addBreak spot.char) text rest
    else if gap.hasBreaks && !inFlow && spot.column < indent then some ending
    else if Spot.atBoundary (spot :: rest) || (spot.char == '#' && !gap.isNothing) then some ending
    else if inFlow && spot.char == ':' && rest.head?.any fun next => isFlowMark next.char || next.char == '?' then none
    else if (spot.char == ':' && Spot.atBlank rest) || (inFlow && isFlowMark spot.char) then some ending
    else plainFrom inFlow indent .nothing (spot.char :: gap.onto text) rest

inductive Chomping where
  | strip
  | clip
  | keep

def chomping? (c : Char) : Option Chomping :=
  if c == '-' then some .strip else if c == '+' then some .keep else none

def indentation? (c : Char) : Option Nat := if '1' ≤ c && c ≤ '9' then some (c.toNat - '0'.toNat) else none

def takeSign {α : Type} (read? : Char → Option α) : List Spot → Option α × List Spot
  | [] => (none, [])
  | spot :: rest =>
    match read? spot.char with
    | some sign => (some sign, rest)
    | none => (none, spot :: rest)

def blockHeader (spots : List Spot) : Option Chomping × Option Nat × List Spot :=
  match takeSign chomping? spots with
  | (some chomping, rest) =>
    let (indent, rest) := takeSign indentation? rest
    (some chomping, indent, rest)
  | (none, rest) =>
    let (indent, rest) := takeSign indentation? rest
    if indent.isSome then
      let (chomping, rest) := takeSign chomping? rest
      (chomping, indent, rest)
    else (none, none, rest)

/-- The indentation and the empty lines in front of a line of a block. `widest` is the widest indentation so far. -/
structure Margin where
  widest : Nat
  breaks : List Char
  rest : List Spot

def marginFrom (indent : Option Nat) (widest : Nat) (breaks : List Char) : List Spot → Option Margin
  | [] => some ⟨widest, breaks, []⟩
  | spot :: rest =>
    let inside := indent.all fun indent => spot.column < indent
    if inside && spot.char == ' ' then marginFrom indent (max widest (spot.column + 1)) breaks rest
    else if inside && spot.char == '\t' then none
    else if Spot.isBreak spot.char then marginFrom indent widest (spot.char :: breaks) rest
    else some ⟨max widest spot.column, breaks, spot :: rest⟩

theorem marginFrom_rest_le {indent : Option Nat} {widest : Nat} {breaks : List Char} {spots : List Spot}
    {margin : Margin} (found : marginFrom indent widest breaks spots = some margin) :
    margin.rest.length ≤ spots.length := by
  fun_induction marginFrom indent widest breaks spots with
  | case1 => cases found; exact Nat.le_refl _
  | case2 _ _ _ _ _ _ ih => exact Nat.le_succ_of_le (ih found)
  | case3 => simp at found
  | case4 _ _ _ _ _ _ _ _ ih => exact Nat.le_succ_of_le (ih found)
  | case5 => cases found; exact Nat.le_refl _

def lineOf (spots : List Spot) : List Char × List Spot :=
  ((spots.takeWhile fun spot => !Spot.isBreak spot.char).map Spot.char,
    spots.dropWhile fun spot => !Spot.isBreak spot.char)

/-- A block that is being read: its text, the line break that waits behind it, the empty lines after that, and whether
the last line began with a blank. -/
structure Block where
  text : List Char
  ended : Option Char
  breaks : List Char
  indented : Bool

namespace Block

/-- Adds a line. In a folded block the line feed in front of it is a space, or nothing before empty lines, unless this
line or the last one begins with a blank. -/
def addLine (folded : Bool) (block : Block) (chars : List Char) : List Char :=
  let indented := chars.head?.any Spot.isBlank
  let wait := if folded && block.ended == some '\n' && !block.indented && !indented
    then (if block.breaks.isEmpty then [' '] else [])
    else block.ended.toList
  chars.reverse ++ block.breaks ++ wait ++ block.text

def finish (chomping : Chomping) (block : Block) : List Char :=
  match chomping with
  | .strip => block.text
  | .clip => block.ended.toList ++ block.text
  | .keep => block.breaks ++ block.ended.toList ++ block.text

end Block

def blockFrom (folded : Bool) (indent : Nat) (block : Block) (spots : List Spot) : Option (Block × List Spot) :=
  match spots with
  | [] => some (block, [])
  | spot :: rest =>
    if spot.column != indent then some (block, spot :: rest)
    else
      let line := lineOf rest
      let text := block.addLine folded (spot.char :: line.1)
      match _h : marginFrom (some indent) 0 [] line.2.tail with
      | none => none
      | some margin =>
        blockFrom folded indent
          ⟨text, line.2.head?.map Spot.char, margin.breaks, Spot.isBlank spot.char⟩ margin.rest
termination_by spots.length
decreasing_by
  have shorter := marginFrom_rest_le _h
  have inside : line.2.length ≤ rest.length := (List.dropWhile_sublist _).length_le
  simp only [List.length_tail, List.length_cons] at *
  omega

def block? (folded : Bool) (outer : Nat) (spots : List Spot) : Option (List Char × List Spot) := do
  let (chomping, given, rest) := blockHeader spots
  let rest ← Spot.endLine? rest
  let margin ← marginFrom (given.map (outer - 1 + ·)) 0 [] rest
  let indent := match given with
    | some given => outer - 1 + given
    | none => max (max margin.widest outer) 1
  let (block, rest) ← blockFrom folded indent ⟨[], none, margin.breaks, false⟩ margin.rest
  return (block.finish (chomping.getD .clip), rest)

end MapStyle.Document.Yaml
