import MapStyle.Document.Yaml.Property
import MapStyle.Document.Yaml.Scalar
/-!
Reading the tokens of a text. Columns tell where blocks begin and end. That a node names a field is seen only at the
colon behind it, so tokens are put in front of it then.
-/
namespace MapStyle.Document.Yaml

/-- A place where the name of a field may have started, behind `count` tokens. Where it is `required`, nothing else can
have started there. -/
structure Candidate where
  count : Nat
  spot : Spot
  required : Bool

def Candidate.isStale (candidate : Candidate) (spot : Spot) : Bool :=
  candidate.spot.line < spot.line || candidate.spot.offset + 1024 < spot.offset

/-- The tokens read so far, last first, the columns of the open blocks, innermost first, and a candidate for the name of
a field; `brackets` holds the candidates outside of each open bracket. `fresh` tells whether a name may start. -/
structure Layout where
  tokens : List Token
  count : Nat
  columns : List Nat
  candidate : Option Candidate
  brackets : List (Option Candidate)
  fresh : Bool

namespace Layout

def start : Layout := ⟨[], 0, [], none, [], true⟩

def inFlow (layout : Layout) : Bool := !layout.brackets.isEmpty

def indent (layout : Layout) : Nat := (layout.columns.head?.map (· + 1)).getD 0

def push (token : Token) (layout : Layout) : Layout :=
  { layout with tokens := token :: layout.tokens, count := layout.count + 1 }

def insert (count : Nat) (token : Token) (layout : Layout) : Layout :=
  let later := layout.count - count
  { layout with
    tokens := layout.tokens.take later ++ token :: layout.tokens.drop later, count := layout.count + 1 }

def setFresh (fresh : Bool) (layout : Layout) : Layout := { layout with fresh }

def dropCandidate (layout : Layout) : Option Layout :=
  if layout.candidate.any Candidate.required then none else some { layout with candidate := none }

def propose (spot : Spot) (layout : Layout) : Option Layout :=
  if layout.fresh then
    let required := !layout.inFlow && layout.columns.head? == some spot.column
    layout.dropCandidate.map fun layout => { layout with candidate := some ⟨layout.count, spot, required⟩ }
  else some layout

def expireAt (spot : Spot) (candidate : Option Candidate) : Option (Option Candidate) :=
  match candidate with
  | some candidate =>
    if !candidate.isStale spot then some (some candidate) else if candidate.required then none else some none
  | none => some none

def expire (spot : Spot) (layout : Layout) : Option Layout := do
  let candidate ← expireAt spot layout.candidate
  let brackets ← layout.brackets.mapM (expireAt spot)
  return { layout with candidate, brackets }

def endBlocks (stays : Nat → Bool) (layout : Layout) : Layout :=
  if layout.inFlow then layout
  else
    let ended := (layout.columns.takeWhile fun column => !stays column).length
    { layout with
      tokens := List.replicate ended .blockEnd ++ layout.tokens
      count := layout.count + ended
      columns := layout.columns.drop ended }

def endAllBlocks (layout : Layout) : Layout := layout.endBlocks fun _ => false

/-- Begins a block at a column, unless there is one; its token goes behind the first `count`. -/
def beginBlock (column count : Nat) (token : Token) (layout : Layout) : Layout :=
  if layout.inFlow || column < layout.indent then layout
  else { layout.insert count token with columns := column :: layout.columns }

def openBracket (spot : Spot) (token : Token) (layout : Layout) : Option Layout :=
  (layout.propose spot).map fun layout =>
    { layout.push token with brackets := layout.candidate :: layout.brackets, candidate := none, fresh := true }

def closeBracket (token : Token) (layout : Layout) : Option Layout :=
  layout.dropCandidate.map fun layout =>
    let layout := match layout.brackets with
      | candidate :: brackets => { layout with candidate, brackets }
      | [] => layout
    (layout.push token).setFresh false

def comma (layout : Layout) : Option Layout :=
  layout.dropCandidate.map fun layout => (layout.push .comma).setFresh true

def dash (column : Nat) (layout : Layout) : Option Layout :=
  if layout.inFlow || layout.fresh then
    (layout.beginBlock column layout.count .blockList).dropCandidate.map fun layout =>
      (layout.push .dash).setFresh true
  else none

def question (column : Nat) (layout : Layout) : Option Layout :=
  if layout.inFlow || layout.fresh then
    (layout.beginBlock column layout.count .blockRecord).dropCandidate.map fun layout =>
      (layout.push .name).setFresh !layout.inFlow
  else none

/-- A colon makes a name of the candidate; without one, the name before it had a question mark or is missing. -/
def colon (column : Nat) (layout : Layout) : Option Layout :=
  match layout.candidate with
  | some candidate =>
    let layout := (layout.insert candidate.count .name).beginBlock candidate.spot.column candidate.count .blockRecord
    some ({ layout with candidate := none, fresh := false }.push .value)
  | none =>
    if layout.inFlow || layout.fresh then
      some (((layout.beginBlock column layout.count .blockRecord).push .value).setFresh !layout.inFlow)
    else none

def boundary (token : Token) (layout : Layout) : Option Layout :=
  layout.endAllBlocks.dropCandidate.map fun layout => (layout.push token).setFresh false

def node (spot : Spot) (token : Token) (layout : Layout) : Option Layout :=
  (layout.propose spot).map fun layout => (layout.push token).setFresh false

end Layout

/-- Leaves out blanks, line breaks and comments. Where a block may start, tabs are no blanks. A byte order mark in front of
a line is left out too, though it takes a column. -/
def skip (layout : Layout) (comment : Bool) : List Spot → Layout × List Spot
  | [] => (layout, [])
  | spot :: rest =>
    if Spot.isBreak spot.char then skip (layout.setFresh (layout.fresh || !layout.inFlow)) false rest
    else if comment || spot.char == '#' then skip layout true rest
    else if spot.column == 0 && spot.char == '\uFEFF' then skip layout false rest
    else if spot.char == ' ' || (spot.char == '\t' && (layout.inFlow || !layout.fresh)) then skip layout false rest
    else (layout, spot :: rest)

def isIndicator (c : Char) : Bool :=
  ['-', '?', ':', ',', '[', ']', '\x7b', '\x7d', '#', '&', '*', '!', '|', '>', '\'', '"', '%', '@', '\x60'].contains c

def startsPlain (inFlow : Bool) (c : Char) (rest : List Spot) : Bool :=
  !(isIndicator c || Spot.isBlank c) || ((c == '-' || (!inFlow && (c == '?' || c == ':'))) && !Spot.atBlank rest)

def scalarToken (kind : String → Document) (read : List Char) : Token := .scalar (kind (String.ofList read.reverse))

def readToken (layout : Layout) (spot : Spot) (rest : List Spot) : Option (Layout × List Spot) :=
  if spot.column == 0 && spot.char == '%' then do
    let (token, after) ← directive? rest
    return (← layout.boundary token, after)
  else if Spot.atMarker '-' (spot :: rest) then (layout.boundary .documentStart).map (·, rest.drop 2)
  else if Spot.atMarker '.' (spot :: rest) then (layout.boundary .documentEnd).map (·, rest.drop 2)
  else match spot.char with
    | '[' => (layout.openBracket spot .openList).map (·, rest)
    | '\x7b' => (layout.openBracket spot .openRecord).map (·, rest)
    | ']' => (layout.closeBracket .closeList).map (·, rest)
    | '\x7d' => (layout.closeBracket .closeRecord).map (·, rest)
    | ',' => layout.comma.map (·, rest)
    | '*' => do
      let (id, after) ← anchorId? rest
      return (← layout.node spot (.alias id), after)
    | '&' => do
      let (id, after) ← anchorId? rest
      return (← layout.node spot (.anchor id), after)
    | '!' => do
      let (token, after) ← tag? layout.inFlow rest
      return (← layout.node spot token, after)
    | '\'' | '"' => do
      let (read, after) ← quotedFrom spot.char .nothing [] rest
      return (← layout.node spot (scalarToken .text read), after)
    | c =>
      if c == '-' && Spot.atBlank rest then (layout.dash spot.column).map (·, rest)
      else if c == '?' && (layout.inFlow || Spot.atBlank rest) then (layout.question spot.column).map (·, rest)
      else if c == ':' && (layout.inFlow || Spot.atBlank rest) then (layout.colon spot.column).map (·, rest)
      else if (c == '|' || c == '>') && !layout.inFlow then do
        let layout ← layout.dropCandidate
        let (read, after) ← block? (c == '>') layout.indent rest
        return ((layout.push (scalarToken (if c == '|' then .literal else .text) read)).setFresh true, after)
      else if startsPlain layout.inFlow c rest then do
        let scalar ← plainFrom layout.inFlow layout.indent .nothing [] (spot :: rest)
        let layout ← layout.node spot (scalarToken .plain scalar.text)
        return (layout.setFresh scalar.broken, scalar.rest)
      else none

def readTokens (layout : Layout) (spots : List Spot) : (count : Nat) → Option (List Token)
  | 0 => none
  | count + 1 =>
    match skip layout false spots with
    | (layout, []) => (layout.boundary .textEnd).map fun layout => layout.tokens.reverse
    | (layout, spot :: rest) => do
      let layout ← layout.expire spot
      let (layout, after) ← readToken (layout.endBlocks fun column => column ≤ spot.column) spot rest
      readTokens layout after count

/-- The tokens of a text. Each takes a character, so there are no more of them than characters. -/
def Token.ofText? (s : String) : Option (List Token) := do
  let spots ← Spot.ofText? s
  readTokens Layout.start spots (spots.length + 1)

end MapStyle.Document.Yaml
