import MapStyle.Sheet.Basic
import MapStyle.Sheet.Lexeme
import MapStyle.Sheet.LineComment
import MapStyle.Text.Split
/-!
Reading a stylesheet. Selectors and declarations are numbered in the order in which they are completed, a ruleset's
selectors before its body, one counter running through all.
-/
namespace MapStyle
namespace Reader
open Lexeme

/-- The next source index and the next identity of an expression. -/
structure Numbering where
  nextIndex : Nat
  nextId : Nat

abbrev Reading := StateT Numbering (Except StyleError)

def fail {α : Type} (flaw : Flaw) (place : Place) : Reading α := fun _ => .error (.flawed flaw place)

def takeIndex : Reading Nat := fun n => .ok (n.nextIndex, { n with nextIndex := n.nextIndex + 1 })

def newExpression (value : Value) (place : Place) : Reading Expression :=
  fun n => .ok (⟨n.nextId, value, place⟩, { n with nextId := n.nextId + 1 })

def readNumber (text : String) (place : Place) : Except StyleError Number :=
  match Number.read? text with
  | some value => .ok value
  | none => .error (.flawed (.invalidNumber text) place)

def sequenceOf (terms : List Value) (place : Place) : Except StyleError Value :=
  match terms with
  | [] => .error (.flawed .missingValue place)
  | [term] => .ok term
  | terms => .ok (.sequence terms.reverse)

def listOf : List Value → Value
  | [value] => value
  | values => .list values

def argumentsOf : Value → List Value
  | .list args => args
  | single => [single]

def urlPath (items : List Lexeme) : String :=
  match significant items with
  | .leaf (.quoted path) _ :: _ => path
  | _ => Text.trim (textAll items)

def readToken (token : Token) (line : Nat) (place : Place) : Except StyleError Value :=
  match token with
  | .word word => .ok (.keyword word)
  | .number text => do return .number (← readNumber text place) none
  | .measure text unit => do return .number (← readNumber text place) (some unit)
  | .percentage text => do return .percentage (← readNumber text place)
  | .hash color => .ok (.color ("#" ++ color))
  | .quoted text => .ok (.quoted text)
  | .atWord name => .ok (.variable name)
  | .url path => .ok (.url path)
  | .mark char => .ok (.mark char)
  | token => .error (.flawed (.strayInValue (tokenText token)) { place with line })

mutual
def readTerm (place : Place) : Lexeme → Except StyleError Value
  | .leaf token line => readToken token line place
  | .group .square items _ => .ok (.field (Text.trim (textAll items)))
  | .group .round items _ => do return listOf (← readParts place [] items)
  | .group .curly items line => .error (.flawed (.strayInValue (text (.group .curly items line))) { place with line })
  | .group (.call name) items _ =>
    if Text.lower name == "url" then .ok (.url (urlPath items))
    else if (significant items).isEmpty then .ok (.call name [])
    else do return .call name (argumentsOf (listOf (← readParts place [] items)))

def readParts (place : Place) (terms : List Value) : List Lexeme → Except StyleError (List Value)
  | [] => do return [← sequenceOf terms place]
  | item :: rest =>
    if item.isToken .comma then do
      let part ← sequenceOf terms place
      return part :: (← readParts place [] rest)
    else if item.isBlank then readParts place terms rest
    else do
      let term ← readTerm place item
      readParts place (term :: terms) rest
end

def readValue (place : Place) (items : List Lexeme) : Reading Value := do
  return listOf (← readParts place [] items)

def readExpression (place : Place) (items : List Lexeme) : Reading Expression := do
  newExpression (← readValue place items) place

def startsComparison : Lexeme → Bool
  | .leaf (.mark c) _ => c == '=' || c == '!' || c == '>' || c == '<' || c == '%'
  | _ => false

def continuesComparison (item : Lexeme) : Bool := startsComparison item || item.isToken (.mark '~')

def filterKey (items : List Lexeme) (place : Place) : Reading String :=
  match significant items with
  | [] => fail .filterWithoutKey place
  | [.leaf (.quoted key) _] => pure key
  | _ => pure (Text.trim (textAll items))

def readFilter (place : Place) (items : List Lexeme) : Reading SelectorPart := do
  let keyItems := items.takeWhile fun item => !startsComparison item
  let rest := items.dropWhile fun item => !startsComparison item
  if rest.isEmpty then fail .filterWithoutComparison place
  else
    let key ← filterKey keyItems place
    let symbol := textAll (rest.takeWhile continuesComparison)
    match Comparison.ofSymbol? symbol with
    | none => fail (.unknownComparison symbol) place
    | some op =>
      let value ← readExpression place (rest.dropWhile continuesComparison)
      return if key == "zoom" then .zoom op value else .filter key op value

/-- The parts of a selector; `place` is that of the selector, for all that is wrong outside its filters. -/
def readSelectorParts (place : Place) (items : List Lexeme) : Reading (List SelectorPart) :=
  match items with
  | [] => pure []
  | .leaf (.hash name) _ :: rest => do
    return .element (Element.ofText ("#" ++ name)) :: (← readSelectorParts place rest)
  | .leaf (.word name) _ :: rest => do
    return .element (Element.ofText name) :: (← readSelectorParts place rest)
  | .leaf (.mark '.') _ :: .leaf (.word name) _ :: rest => do
    return .element (Element.ofText ("." ++ name)) :: (← readSelectorParts place rest)
  | .leaf (.mark '.') _ :: _ => fail .missingClassName place
  | .leaf (.mark '*') _ :: rest => do
    return .element .wildcard :: (← readSelectorParts place rest)
  | .group .square inner line :: rest => do
    let part ← readFilter { place with line } inner
    return part :: (← readSelectorParts place rest)
  | .leaf .colon _ :: .leaf .colon _ :: .leaf (.word name) _ :: rest => do
    return .attachment name :: (← readSelectorParts place rest)
  | .leaf .colon _ :: _ => fail .missingAttachmentName place
  | item :: _ => fail (.strayInSelector item.text) place

def readSelector (fallback : Place) (items : List Lexeme) : Reading WrittenSelector := do
  let items := significant items
  let place := (items.head?.map fun item => { fallback with line := item.line }).getD fallback
  let parts ← readSelectorParts place items
  if parts.isEmpty then fail .emptySelector place
  else return ⟨parts, ← takeIndex, place⟩

def readSelectors (fallback : Place) : List (List Lexeme) → Reading (List WrittenSelector)
  | [] => pure []
  | part :: rest => do
    let selector ← readSelector fallback part
    return selector :: (← readSelectors fallback rest)

def readDeclaration (place : Place) (items : List Lexeme) : Reading Declaration := do
  let notColon : Lexeme → Bool := fun item => !item.isToken .colon
  let rest := items.dropWhile notColon
  if rest.isEmpty then fail (.declarationWithoutColon (Text.trim (textAll items))) place
  else
    let name := Text.removeBlanks (textAll (items.takeWhile notColon))
    if name == "" then fail .unnamedDeclaration place
    else
      let value ← readExpression place rest.tail
      return Declaration.ofName name value (← takeIndex) place

def readVariable (place : Place) (name : String) (items : List Lexeme) : Reading (String × Expression) :=
  match items.dropWhile Lexeme.isBlank with
  | .leaf .colon _ :: rest => do return (name, ← readExpression place rest)
  | _ => fail (.variableWithoutColon name) place

/-- What a block holds, in order of each kind. -/
structure Block where
  bindings : List (String × Expression)
  declarations : List Declaration
  rulesets : List Ruleset

/-- A statement that is being read: its lexemes so far, last first, and the line of the first. -/
inductive Pending where
  | idle
  | variable (name : String) (items : List Lexeme) (line : Nat)
  | statement (items : List Lexeme) (line : Nat)

def endStatement (file : String) : Pending → Reading (Block → Block)
  | .idle => pure id
  | .variable name items line => do
    let entry ← readVariable ⟨file, line⟩ name items.reverse
    return fun block => { block with bindings := entry :: block.bindings }
  | .statement items line => do
    let declaration ← readDeclaration ⟨file, line⟩ items.reverse
    return fun block => { block with declarations := declaration :: block.declarations }

def Pending.push (item : Lexeme) : Pending → Pending
  | .idle =>
    match item with
    | .leaf (.atWord name) line => .variable name [] line
    | item => if item.isBlank then .idle else .statement [item] item.line
  | .variable name items line => .variable name (item :: items) line
  | .statement items line => .statement (item :: items) line

/-- Where a group in braces is the body of a ruleset, the lexemes in front of it and the line of the ruleset. -/
def Pending.head? (line : Nat) : Pending → Option (List Lexeme × Nat)
  | .idle => some ([], line)
  | .statement items start => some (items.reverse, start)
  | .variable _ _ _ => none

/-- The statements of a block. A variable runs to the next semicolon; any other statement to the next semicolon, which
makes it a declaration, or to a group in braces, which makes it a ruleset. -/
def readBlock (file : String) (pending : Pending) : List Lexeme → Reading Block
  | [] => do return (← endStatement file pending) ⟨[], [], []⟩
  | .group .curly body line :: rest =>
    match pending.head? line with
    | some (head, start) => do
      let selectors ← readSelectors ⟨file, start⟩ (Text.splitBy (Lexeme.isToken .comma) head)
      let inner ← readBlock file .idle body
      let after ← readBlock file .idle rest
      return ⟨inner.bindings ++ after.bindings, after.declarations,
        .mk selectors inner.declarations inner.rulesets ⟨file, start⟩ :: after.rulesets⟩
    | none => readBlock file (pending.push (.group .curly body line)) rest
  | item :: rest =>
    if item.isToken .semicolon then do
      let add ← endStatement file pending
      return add (← readBlock file .idle rest)
    else readBlock file (pending.push item) rest

def readSheet (file : String) (css : String) : Reading Sheet := do
  let block ← readBlock file .idle (Lexeme.ofChars (LineComment.strip css.toList))
  match block.declarations with
  | [] => return ⟨file, block.bindings, block.rulesets⟩
  | loose :: _ => fail (.looseDeclaration loose.property) loose.place

end Reader

def Sheet.read (file css : String) (start : Reader.Numbering) : Except StyleError (Sheet × Reader.Numbering) :=
  (Reader.readSheet file css).run start

end MapStyle
