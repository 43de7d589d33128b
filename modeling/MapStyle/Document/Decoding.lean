import MapStyle.Document.Plain
/-!
Taking documents apart: what each kind of value accepts, and the fields of structures. Aliases are followed where a value
is asked for, and not in what is passed over.
-/
namespace MapStyle

abbrev Decoding := ReaderT (List (Nat × Document)) (StateT Nat Option)

def Document.Anchored.decode? {α : Type} (document : Anchored) (read : Document → Decoding α) : Option α :=
  ((read document.root).run document.anchors).run' (100 * document.root.marks)

namespace Decoding

def follow : Document → Decoding Document
  | .alias anchor => do
    match ← get with
    | 0 => failure
    | left + 1 =>
      set left
      (← read).lookup anchor
  | document => pure document

def hasLocalTag : Document → Bool
  | .tagged tag _ => tag.toList.head? == some '!'
  | _ => false

def settleScalar? : Document → Option Document
  | .plain s => some (Document.Plain.settle s)
  | .literal s => some (.text s)
  | .tagged tag (.plain s) | .tagged tag (.text s) | .tagged tag (.literal s) => Document.Plain.settleAs? tag s
  | document => some document

def usable? : Document → Option Document
  | .unusable => none
  | document => some document

/-- The document with its scalars settled, going at most `depth` collections deep; it fails when a part has no value.
The names of fields are settled too where `anyName` is set, and are texts otherwise. -/
def settle (anyName : Bool) (depth : Nat) (document : Document) : Decoding Document := do
  let document ← follow document
  if hasLocalTag document then failure
  else match depth, document.bare with
    | 0, .list _ | 0, .record _ => failure
    | depth + 1, .list items => .list <$> items.mapM fun item => settle anyName depth item
    | depth + 1, .record fields =>
      .record <$> fields.mapM fun (field : Document × Document) => do
        let name ← if anyName then settle anyName depth field.1 else .text <$> (← follow field.1).text?
        return (name, ← settle anyName depth field.2)
    | _, _ => (settleScalar? document).bind usable?

def text (document : Document) : Decoding String := do (← follow document).text?

/-- The text of a scalar where a number of a kind is expected: it is plain, or literal with the tag of that kind. -/
def numeral? (kind : String) : Document → Option String
  | .plain s | .tagged _ (.plain s) => some s
  | .tagged tag (.literal s) => if tag == Document.Plain.kindTag kind then some s else none
  | _ => none

def nat (limit : Nat) (document : Document) : Decoding Nat := do
  let document ← follow document
  let n ← match document with
    | .whole negative size => if negative then none else some size
    | document => (numeral? "int" document).bind Document.Plain.natural?
  if n < limit then pure n else failure

def number (document : Document) : Decoding Number := do
  match ← follow document with
  | .whole negative size => return match Format.binary64.nearest? size 1 with
    | some steps => .finite negative steps
    | none => .infinite negative
  | .fraction x => return x
  | document => (numeral? "float" document).bind Document.Plain.fraction?

def isMissing? : Document → Option Bool
  | .null => some true
  | .plain s => some (Document.Plain.isNull s)
  | .tagged tag (.plain s) =>
    if tag == Document.Plain.kindTag "null" then (Document.Plain.settleAs? tag s).map fun _ => true else some false
  | _ => some false

def option {α : Type} (read : Document → Decoding α) (document : Document) : Decoding (Option α) := do
  let document ← follow document
  if ← isMissing? document then return none else some <$> read document

def list {α : Type} (depth : Nat) (read : Document → Decoding α) (document : Document) : Decoding (List α) := do
  match (← follow document).bare with
  | .list items => if depth = 0 then failure else items.mapM read
  | .plain "" => return []
  | _ => failure

/-- The fields of a structure where `depth` collections may still be opened. Where `positional` is set, a list gives their
values in the order of `names`. -/
def fields (positional : Bool) (depth : Nat) (names : List String) (document : Document) :
    Decoding (List (String × Document)) := do
  match (← follow document).bare with
  | .record fields =>
    if depth = 0 then failure
    else fields.mapM fun field => do return (← text field.1, field.2)
  | .list items => if positional && depth != 0 && items.length ≤ names.length then return names.zip items else failure
  | .plain "" => return []
  | _ => failure

def fieldName? (names : List String) : Document → Option String
  | .text s => some s
  | .whole false position => some (names.getD position "")
  | _ => none

def settledFields? (names : List String) : Document → Option (List (String × Document))
  | .record fields => fields.mapM fun field => (fieldName? names field.1).map (·, field.2)
  | _ => none

def field {α : Type} (fields : List (String × Document)) (name : String) (missing : α)
    (read : Document → Decoding α) : Decoding α :=
  match fields.filter fun field => field.1 == name with
  | [] => pure missing
  | [field] => read field.2
  | _ => failure

end Decoding
end MapStyle
