import MapStyle.Document.Yaml.Layout
/-!
Reading YAML. The tokens are read one after the other; what is open is kept on a stack of frames, innermost first. A
node that is missing is an empty scalar. Aliases are kept, as a node may hold aliases of itself.
-/
namespace MapStyle.Document.Yaml

/-- How far a text is: before its document, behind directives, behind the mark of the document, or behind its node. -/
inductive Stage where
  | before
  | directed
  | begun
  | over

/-- Where a record stands: a field or its name may come, the name was read, the value may come, or a field is complete.
Within brackets a comma makes way for the next field, in a block its name is announced. -/
inductive Slot where
  | ready
  | name
  | named (name : Document)
  | value (name : Document)
  | done

/-- What is open. A list is `ready` where an item may come. A hanging list has no end of its own. A pair is an item
within brackets that is a record of one field. -/
inductive Frame where
  | document (stage : Stage) (node : Document)
  | blockList (ready : Bool) (items : List Document)
  | hangingList (ready : Bool) (items : List Document)
  | flowList (ready : Bool) (items : List Document)
  | record (inFlow : Bool) (slot : Slot) (fields : List (Document × Document))
  | pair (slot : Slot)

def Slot.awaits : Slot → Bool
  | ready | name | value _ => true
  | named _ | done => false

def Frame.awaits : Frame → Bool
  | document stage _ =>
    match stage with
    | .before | .begun => true
    | .directed | .over => false
  | blockList ready _ | hangingList ready _ | flowList ready _ => ready
  | record _ slot _ | pair slot => slot.awaits

structure Properties where
  anchor : Option String
  tag : Option String

def Properties.isEmpty (properties : Properties) : Bool := properties.anchor.isNone && properties.tag.isNone

/-- An open node: its frame, how many anchors there were before its own, and its tag. -/
structure Open where
  frame : Frame
  anchor : Option Nat
  tag : Option String

def Open.put (node : Document) : List Open → Option (List Open)
  | [] => none
  | top :: rest =>
    match top.frame with
    | .blockList true items => some ({ top with frame := .blockList false (node :: items) } :: rest)
    | .hangingList true items => some ({ top with frame := .hangingList false (node :: items) } :: rest)
    | .flowList true items => some ({ top with frame := .flowList false (node :: items) } :: rest)
    | .record inFlow .ready fields =>
      some ({ top with frame := .record inFlow .done ((node, .empty) :: fields) } :: rest)
    | .record inFlow .name fields => some ({ top with frame := .record inFlow (.named node) fields } :: rest)
    | .record inFlow (.value name) fields =>
      some ({ top with frame := .record inFlow .done ((name, node) :: fields) } :: rest)
    | .pair .name => some ({ top with frame := .pair (.named node) } :: rest)
    | .pair (.value name) => put (.record [(name, node)]) rest
    | .document .before _ | .document .begun _ => some ({ top with frame := .document .over node } :: rest)
    | _ => none

structure Anchor where
  id : String
  number : Nat
  node : Document

/-- The open nodes; the properties of the node that comes; the handles of tags; whether a version was told; the nodes
with anchors, last first, of which an open one has no value yet; and how many ids of anchors there are. -/
structure Reading where
  opened : List Open
  properties : Properties
  handles : List (String × String)
  versioned : Bool
  anchors : List Anchor
  ids : Nat

namespace Reading

def start : Reading := ⟨[⟨.document .before .empty, none, none⟩], ⟨none, none⟩, [], false, [], 0⟩

def put (node : Document) (reading : Reading) : Option Reading :=
  (Open.put node reading.opened).map fun opened => { reading with opened }

def setFrame (frame : Frame) (reading : Reading) : Reading :=
  match reading.opened with
  | top :: rest => { reading with opened := { top with frame } :: rest }
  | [] => reading

def withTag (tag : Option String) (node : Document) : Document :=
  match tag with
  | some tag => .tagged tag node
  | none => node

def anchor? (id : String) (reading : Reading) : Option Anchor := reading.anchors.find? fun anchor => anchor.id == id

/-- Begins a node with an anchor, which has no value until it is complete. Its number is that of the ids before it; so an
anchor whose id was there before shares its number with the next whose id is new. -/
def beginAnchor (id : String) (reading : Reading) : Reading :=
  { reading with
    anchors := ⟨id, reading.ids, .unusable⟩ :: reading.anchors
    ids := if (reading.anchor? id).isSome then reading.ids else reading.ids + 1 }

def takeProperties (reading : Reading) : Option Nat × Option String × Reading :=
  let reading' := { reading with properties := ⟨none, none⟩ }
  match reading.properties.anchor with
  | some id => (some reading.anchors.length, reading.properties.tag, reading'.beginAnchor id)
  | none => (none, reading.properties.tag, reading')

def setAnchor (place : Option Nat) (node : Document) (reading : Reading) : Reading :=
  match place with
  | some place =>
    { reading with
      anchors := reading.anchors.modify (reading.anchors.length - 1 - place) fun anchor => { anchor with node } }
  | none => reading

def openFrame (frame : Frame) (reading : Reading) : Reading :=
  let (anchor, tag, reading) := reading.takeProperties
  { reading with opened := ⟨frame, anchor, tag⟩ :: reading.opened }

def close (node : Document) (reading : Reading) : Option Reading :=
  match reading.opened with
  | top :: rest =>
    let node := withTag top.tag node
    ({ reading with opened := rest }.setAnchor top.anchor node).put node
  | [] => none

def putScalar (scalar : Document) (reading : Reading) : Option Reading :=
  let (anchor, tag, reading) := reading.takeProperties
  let node := withTag tag scalar
  (reading.setAnchor anchor node).put node

def tag? (handle suffix : String) (reading : Reading) : Option String :=
  if handle.isEmpty then some suffix
  else ((reading.handles ++ [("!", "!"), ("!!", "tag:yaml.org,2002:")]).lookup handle).map (· ++ suffix)

def directive? (token : Token) (reading : Reading) : Option Reading :=
  match token with
  | .version major minor =>
    if !reading.versioned && major == 1 && (minor == 1 || minor == 2) then some { reading with versioned := true }
    else none
  | .tagShort handle long =>
    if (reading.handles.lookup handle).isNone then some { reading with handles := (handle, long) :: reading.handles }
    else none
  | _ => none

def separate (token : Token) (reading : Reading) : Option Reading :=
  match reading.opened with
  | [] => none
  | top :: _ =>
    match top.frame, token with
    | .blockList false items, .dash => some (reading.setFrame (.blockList true items))
    | .blockList false items, .blockEnd => reading.close (.list items.reverse)
    | .flowList false items, .comma => some (reading.setFrame (.flowList true items))
    | .flowList false items, .closeList => reading.close (.list items.reverse)
    | .record false .done fields, .name => some (reading.setFrame (.record false .name fields))
    | .record false .done fields, .blockEnd => reading.close (.record fields.reverse)
    | .record true .done fields, .comma => some (reading.setFrame (.record true .ready fields))
    | .record true .done fields, .closeRecord => reading.close (.record fields.reverse)
    | .document .directed node, .documentStart => some (reading.setFrame (.document .begun node))
    | .document .directed _, token => reading.directive? token
    | .document .over _, .documentEnd | .document .over _, .textEnd => some reading
    | _, _ => none

def afterName (token : Token) (reading : Reading) : Option Reading :=
  match reading.opened with
  | [] => none
  | top :: _ =>
    let valued : Option Frame := match top.frame with
      | .record inFlow (.named name) fields => some (.record inFlow (.value name) fields)
      | .pair (.named name) => some (.pair (.value name))
      | _ => none
    match valued, token with
    | some frame, .value => some (reading.setFrame frame)
    | some frame, token => ((reading.setFrame frame).put .empty).bind (separate token)
    | none, token => reading.separate token

def between (token : Token) (reading : Reading) : Option Reading :=
  match reading.opened with
  | [] => none
  | top :: _ =>
    match top.frame, token with
    | .hangingList false items, .dash => some (reading.setFrame (.hangingList true items))
    | .hangingList false items, token => (reading.close (.list items.reverse)).bind (afterName token)
    | _, token => reading.afterName token

def isMissing : Frame → Token → Bool
  | .document .begun _, .documentEnd | .document .begun _, .textEnd
  | .blockList _ _, .dash | .blockList _ _, .blockEnd
  | .hangingList _ _, .dash | .hangingList _ _, .name | .hangingList _ _, .value | .hangingList _ _, .blockEnd
  | .record false _ _, .name | .record false _ _, .value | .record false _ _, .blockEnd
  | .record true .name _, .value | .record true .name _, .comma | .record true .name _, .closeRecord
  | .record true (.value _) _, .comma | .record true (.value _) _, .closeRecord
  | .pair (.value _), .comma | .pair (.value _), .closeList => true
  | _, _ => false

def withoutNode (token : Token) (reading : Reading) : Option Reading :=
  match reading.opened with
  | [] => none
  | top :: _ =>
    if !reading.properties.isEmpty then (reading.putScalar .empty).bind (between token)
    else if isMissing top.frame token then (reading.put .empty).bind (between token)
    else match top.frame, token with
      | .document .before node, .documentStart => some (reading.setFrame (.document .begun node))
      | .document .before _, .textEnd => reading.put .empty
      | .document .before node, token => (reading.directive? token).map (setFrame (.document .directed node))
      | .flowList _ items, .closeList => reading.close (.list items.reverse)
      | .flowList _ _, .name => some (reading.openFrame (.pair .name))
      | .record true .ready fields, .closeRecord => reading.close (.record fields.reverse)
      | .record true .ready fields, .name => some (reading.setFrame (.record true .name fields))
      | .pair .name, .value | .pair .name, .comma | .pair .name, .closeList => reading.put .empty
      | _, _ => none

def node (token : Token) (reading : Reading) : Option Reading :=
  match token with
  | .anchor id =>
    if reading.properties.anchor.isNone then some { reading with properties.anchor := some id } else none
  | .tag handle suffix =>
    if reading.properties.tag.isNone then
      (reading.tag? handle suffix).map fun tag => { reading with properties.tag := some tag }
    else none
  | .alias id =>
    if reading.properties.isEmpty then
      (reading.anchor? id).bind fun anchor => reading.put (.alias anchor.number)
    else none
  | .scalar scalar => reading.putScalar scalar
  | .openList => some (reading.openFrame (.flowList true []))
  | .openRecord => some (reading.openFrame (.record true .ready []))
  | .blockList => some (reading.openFrame (.blockList false []))
  | .blockRecord => some (reading.openFrame (.record false .done []))
  | .dash =>
    match reading.opened.head?.map Open.frame with
    | some (.record false _ _) => some (reading.openFrame (.hangingList true []))
    | _ => reading.withoutNode .dash
  | token => reading.withoutNode token

def read (reading : Reading) (token : Token) : Option Reading :=
  match reading.opened with
  | top :: _ => if top.frame.awaits then reading.node token else reading.between token
  | [] => none

def document? (reading : Reading) : Option Anchored :=
  match reading.opened with
  | [top] => match top.frame with
    | .document .over node => some ⟨node, reading.anchors.map fun anchor => (anchor.number, anchor.node)⟩
    | _ => none
  | _ => none

end Reading
end Yaml

def ofYaml? (s : String) : Option Anchored := do
  let reading ← (← Yaml.Token.ofText? s).foldlM Yaml.Reading.read Yaml.Reading.start
  reading.document?

end MapStyle.Document
