import MapStyle.Definition
/-!
Inheritance. A definition takes over the declarations of the less specific ones of its attachment that see the same
features; where they see only some of its features, a narrower copy of it does. Definitions and copies live in one
arena and are known by their position there, since a copy is found again by the text of its filters and extended.
-/
namespace MapStyle.Inheritance

/-- The arena, the members found by attachment and filter text (the latest entry first), and the members placed in
styles so far, last first. -/
structure Work where
  arena : Array Definition
  index : List ((String × String) × Nat)
  placed : List (String × Nat)

namespace Work

def empty : Work := ⟨#[], [], []⟩

def find? (work : Work) (attachment filters : String) : Option Nat := work.index.lookup (attachment, filters)

def push (work : Work) (definition : Definition) : Work :=
  { work with arena := work.arena.push definition }

def register (work : Work) (attachment filters : String) (member : Nat) : Work :=
  { work with index := ((attachment, filters), member) :: work.index }

def extend (work : Work) (member : Nat) (declarations : List Declaration) : Work :=
  { work with arena := work.arena.modify member fun definition => definition.addDeclarations declarations }

def place (work : Work) (attachment : String) (member : Nat) : Work :=
  match work.arena[member]? with
  | some definition =>
    { (work.register attachment definition.filters.text member) with
      placed := (attachment, member) :: work.placed }
  | none => work

end Work

/-- Splits `definition`, which stands at `member`, for the features that `incoming` sees too. Nothing is split where a
copy with these filters is known, which takes the declarations instead, nor where there are none to take. -/
def split (incoming : Definition) (work : Work) (member : Nat) (definition : Definition) (filters : FilterSet) :
    Work × List Nat :=
  match work.find? incoming.attachment filters.text with
  | some known => (work.extend known incoming.declarations, [member])
  | none =>
    let copy := { definition with filters }.addDeclarations incoming.declarations
    if definition.declarations.length < copy.declarations.length then
      let fresh := work.arena.size
      ((work.push copy).register incoming.attachment filters.text fresh, [fresh, member])
    else (work, [member])

def absorb (incoming : Definition) (work : Work) (member : Nat) (definition : Definition) : Work × List Nat :=
  if work.find? incoming.attachment definition.filters.text = some member then
    (work.push (definition.addDeclarations incoming.declarations), [work.arena.size])
  else (work.extend member incoming.declarations, [member])

/-- Lets one member inherit from `incoming`; the answer lists what stands in its place, narrower members first. -/
def visit (incoming : Definition) (work : Work) (member : Nat) : Work × List Nat :=
  match work.arena[member]? with
  | none => (work, [member])
  | some definition =>
    match definition.filters.merge incoming.filters with
    | .merged filters => split incoming work member definition filters
    | .unchanged => absorb incoming work member definition
    | .conflict => (work, [member])

def visitAll (incoming : Definition) (work : Work) : List Nat → Work × List Nat
  | [] => (work, [])
  | member :: rest =>
    let (work, here) := visit incoming work member
    let (work, after) := visitAll incoming work rest
    (work, here ++ after)

def pass (work : Work) (members : List Nat) : List Definition → Work × List Nat
  | [] => (work, members)
  | incoming :: later =>
    let (work, members) := visitAll incoming work members
    pass work members later

def step (work : Work) (definition : Definition) (later : List Definition) : Work :=
  let (work, members) := pass (work.push definition) [work.arena.size]
    (later.filter fun other => other.attachment == definition.attachment)
  members.foldl (fun work member => work.place definition.attachment member) work

def resolveFrom (work : Work) : List Definition → Work
  | [] => work
  | definition :: later => resolveFrom (step work definition later) later

def resolve (definitions : List Definition) : Work := resolveFrom Work.empty definitions

end MapStyle.Inheritance
