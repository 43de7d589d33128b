import MapStyle.Number.Pointed
/-!
Documents: what a text in one of the general formats for structured data says, before it is known what it is for. The
fields of one that is written are `Entries`, sorted by name with each name once.
-/
namespace MapStyle

namespace Entries
variable {α : Type}

def insert (name : String) (value : α) : List (String × α) → List (String × α)
  | [] => [(name, value)]
  | entry :: rest =>
    if name < entry.1 then (name, value) :: entry :: rest
    else if name == entry.1 then (name, value) :: rest
    else entry :: insert name value rest

def lastOfEach (entries : List (String × α)) : List (String × α) :=
  entries.foldl (fun sorted entry => insert entry.1 entry.2 sorted) []

def firstOfEach (entries : List (String × α)) : List (String × α) := lastOfEach entries.reverse

end Entries

/-- A whole number keeps its sign, also that of zero. A `plain` scalar has no quotes, and its kind depends on what is
expected of it; a `literal` one is text in lines of its own, which only a tag can make something else. The names in a
record are documents too. A node may be `tagged`, once. An alias stands for the node with an anchor of that number. What
is `unusable` is well formed and has no value, which harms only where the value is asked for. -/
inductive Document where
  | null
  | boolean (value : Bool)
  | whole (negative : Bool) (size : Nat)
  | fraction (value : Number)
  | text (value : String)
  | plain (value : String)
  | literal (value : String)
  | list (items : List Document)
  | record (fields : List (Document × Document))
  | tagged (tag : String) (node : Document)
  | alias (anchor : Nat)
  | unusable

namespace Document

/-- A document with the nodes that have anchors, by their numbers. -/
structure Anchored where
  root : Document
  anchors : List (Nat × Document)

def empty : Document := .plain ""

def bare : Document → Document
  | .tagged _ node => node
  | document => document

def text? (document : Document) : Option String :=
  match document.bare with
  | .text s | .plain s | .literal s => some s
  | _ => none

def escapes : List (Char × String) :=
  [('"', "\\\""), ('\\', "\\\\"), ('\x08', "\\b"), ('\x0c', "\\f"), ('\n', "\\n"), ('\r', "\\r"), ('\t', "\\t")]

def escapedChar (c : Char) : String :=
  match escapes.lookup c with
  | some escape => escape
  | none =>
    if c.toNat < 0x20 then "\\u00" ++ String.ofList [Nat.digitChar (c.toNat / 16), Nat.digitChar (c.toNat % 16)]
    else String.singleton c

def quoted (s : String) : String := "\"" ++ String.join (s.toList.map escapedChar) ++ "\""

def joinFields (fields : List (String × String)) : String :=
  "\x7b" ++ String.intercalate "," (fields.map fun field => quoted field.1 ++ ":" ++ field.2) ++ "\x7d"

mutual
def compact : Document → String
  | .null | .alias _ | .unusable => "null"
  | .boolean value => if value then "true" else "false"
  | .whole negative size => (if negative && size != 0 then "-" else "") ++ toString size
  | .fraction value => value.pointed
  | .text value | .plain value | .literal value => quoted value
  | .list items => "[" ++ String.intercalate "," (compactItems items) ++ "]"
  | .record fields => joinFields (Entries.lastOfEach (compactFields fields))
  | .tagged _ node => node.compact

def compactItems : List Document → List String
  | [] => []
  | item :: rest => item.compact :: compactItems rest

def compactFields : List (Document × Document) → List (String × String)
  | [] => []
  | (name, value) :: rest => (name.text?.getD "", value.compact) :: compactFields rest
end

mutual
/-- How many scalars and aliases there are, and starts and ends of collections. -/
def marks : Document → Nat
  | .list items => 2 + marksOfItems items
  | .record fields => 2 + marksOfFields fields
  | .tagged _ node => node.marks
  | _ => 1

def marksOfItems : List Document → Nat
  | [] => 0
  | item :: rest => item.marks + marksOfItems rest

def marksOfFields : List (Document × Document) → Nat
  | [] => 0
  | (name, value) :: rest => name.marks + value.marks + marksOfFields rest
end

end Document
end MapStyle
