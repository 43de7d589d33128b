import Mathlib.Data.Finset.Insert
import MapStyle.Proofs.Cascade.Growth
/-!
Inheritance with the ids on file. A member of the arena carries the set of the ids that it declares, by which it is told
whether a declaration is there already. The set is kept up in three places, and it always is what the declarations say.
-/
namespace MapStyle.Inheritance

/-- A definition with the set of the ids that it declares. -/
structure Entry where
  definition : Definition
  ids : Finset String

namespace Entry

def ofDefinition (definition : Definition) : Entry :=
  ⟨definition, definition.declarations.foldl (fun ids declaration => insert declaration.id ids) ∅⟩

/-- Appends a declaration unless its id is on file. -/
def add (entry : Entry) (declaration : Declaration) : Entry :=
  if declaration.id ∈ entry.ids then entry
  else
    { definition := { entry.definition with declarations := entry.definition.declarations ++ [declaration] }
      ids := insert declaration.id entry.ids }

def addAll (entry : Entry) (declarations : List Declaration) : Entry := declarations.foldl add entry

def withFilters (entry : Entry) (filters : FilterSet) : Entry :=
  { entry with definition := { entry.definition with filters } }

def Filed (entry : Entry) : Prop := ∀ id, id ∈ entry.ids ↔ id ∈ entry.definition.declarations.map Declaration.id

variable {entry : Entry}

theorem mem_foldl_insert {id : String} (declarations : List Declaration) (ids : Finset String) :
    id ∈ declarations.foldl (fun ids declaration => insert declaration.id ids) ids ↔
      id ∈ ids ∨ id ∈ declarations.map Declaration.id := by
  induction declarations generalizing ids with
  | nil => simp
  | cons next rest ih =>
    rw [List.foldl_cons, ih, Finset.mem_insert, List.map_cons, List.mem_cons]
    tauto

theorem ofDefinition_filed (definition : Definition) : (ofDefinition definition).Filed := by
  intro id
  simp [ofDefinition, mem_foldl_insert]

theorem Filed.withFilters (filed : entry.Filed) (filters : FilterSet) : (entry.withFilters filters).Filed := filed

theorem Filed.add (filed : entry.Filed) (declaration : Declaration) :
    (entry.add declaration).Filed ∧ (entry.add declaration).definition = entry.definition.addDeclaration declaration := by
  have onFile := (filed declaration.id).trans Definition.declares_iff.symm
  unfold Entry.add Definition.addDeclaration
  by_cases known : declaration.id ∈ entry.ids
  · rw [if_pos known, if_pos (onFile.mp known)]
    exact ⟨filed, rfl⟩
  · rw [if_neg known, if_neg fun declares => known (onFile.mpr declares)]
    refine ⟨fun id => ?_, rfl⟩
    simp [filed id, or_comm]

theorem Filed.addAll (filed : entry.Filed) (declarations : List Declaration) :
    (entry.addAll declarations).Filed ∧
      (entry.addAll declarations).definition = entry.definition.addDeclarations declarations := by
  induction declarations generalizing entry with
  | nil => exact ⟨filed, rfl⟩
  | cons next rest ih =>
    obtain ⟨filedNext, same⟩ := filed.add next
    obtain ⟨filedRest, sameRest⟩ := ih filedNext
    exact ⟨filedRest, sameRest.trans (by rw [same]; rfl)⟩

end Entry

/-- What `Work` holds, with the ids of the members on file. -/
structure Ledger where
  arena : Array Entry
  index : List ((String × String) × Nat)
  placed : List (String × Nat)

namespace Ledger

def empty : Ledger := ⟨#[], [], []⟩

/-- The ledger without the ids. -/
def work (ledger : Ledger) : Work := ⟨ledger.arena.map Entry.definition, ledger.index, ledger.placed⟩

def find? (ledger : Ledger) (attachment filters : String) : Option Nat := ledger.index.lookup (attachment, filters)

def push (ledger : Ledger) (entry : Entry) : Ledger := { ledger with arena := ledger.arena.push entry }

def register (ledger : Ledger) (attachment filters : String) (member : Nat) : Ledger :=
  { ledger with index := ((attachment, filters), member) :: ledger.index }

def extend (ledger : Ledger) (member : Nat) (declarations : List Declaration) : Ledger :=
  { ledger with arena := ledger.arena.modify member fun entry => entry.addAll declarations }

def place (ledger : Ledger) (attachment : String) (member : Nat) : Ledger :=
  match ledger.arena[member]? with
  | some entry =>
    { (ledger.register attachment entry.definition.filters.text member) with
      placed := (attachment, member) :: ledger.placed }
  | none => ledger

/-- As `Inheritance.split`, but the copy is told by its ids what it declares. -/
def split (incoming : Definition) (ledger : Ledger) (member : Nat) (entry : Entry) (filters : FilterSet) : Ledger × List Nat :=
  match ledger.find? incoming.attachment filters.text with
  | some known => (ledger.extend known incoming.declarations, [member])
  | none =>
    let copy := (entry.withFilters filters).addAll incoming.declarations
    if entry.definition.declarations.length < copy.definition.declarations.length then
      let fresh := ledger.arena.size
      ((ledger.push copy).register incoming.attachment filters.text fresh, [fresh, member])
    else (ledger, [member])

/-- As `Inheritance.absorb`, but the member is told by its ids what it declares. -/
def absorb (incoming : Definition) (ledger : Ledger) (member : Nat) (entry : Entry) : Ledger × List Nat :=
  if ledger.find? incoming.attachment entry.definition.filters.text = some member then
    (ledger.push (entry.addAll incoming.declarations), [ledger.arena.size])
  else (ledger.extend member incoming.declarations, [member])

def visit (incoming : Definition) (ledger : Ledger) (member : Nat) : Ledger × List Nat :=
  match ledger.arena[member]? with
  | none => (ledger, [member])
  | some entry =>
    match entry.definition.filters.merge incoming.filters with
    | .merged filters => split incoming ledger member entry filters
    | .unchanged => absorb incoming ledger member entry
    | .conflict => (ledger, [member])

def Filed (ledger : Ledger) : Prop := ∀ entry ∈ ledger.arena, entry.Filed

variable {ledger : Ledger} {member : Nat}

theorem empty_filed : empty.Filed := by simp [Filed, empty]

theorem work_empty : empty.work = Work.empty := by simp [work, empty, Work.empty]

@[simp] theorem arena_work (ledger : Ledger) (member : Nat) :
    ledger.work.arena[member]? = ledger.arena[member]?.map Entry.definition := by
  simp [work]

@[simp] theorem size_work (ledger : Ledger) : ledger.work.arena.size = ledger.arena.size := by simp [work]

theorem find?_work (ledger : Ledger) (attachment filters : String) :
    ledger.work.find? attachment filters = ledger.find? attachment filters := rfl

theorem work_push (ledger : Ledger) (entry : Entry) : (ledger.push entry).work = ledger.work.push entry.definition := by
  simp [push, work, Work.push]

theorem work_register (ledger : Ledger) (attachment filters : String) (member : Nat) :
    (ledger.register attachment filters member).work = ledger.work.register attachment filters member := rfl

theorem Filed.push (filed : ledger.Filed) {entry : Entry} (own : entry.Filed) : (ledger.push entry).Filed := by
  intro other isMember
  rcases Array.mem_push.mp isMember with isOld | rfl
  · exact filed other isOld
  · exact own

theorem Filed.found (filed : ledger.Filed) {entry : Entry} (found : ledger.arena[member]? = some entry) : entry.Filed :=
  filed entry (Array.mem_of_getElem? found)

theorem Filed.extend (filed : ledger.Filed) (member : Nat) (declarations : List Declaration) :
    (ledger.extend member declarations).Filed := by
  intro entry isMember
  obtain ⟨other, found⟩ := Array.mem_iff_getElem?.mp isMember
  rw [Ledger.extend, Array.getElem?_modify] at found
  split at found
  · obtain ⟨old, foundOld, rfl⟩ := Option.map_eq_some_iff.mp found
    exact ((filed.found foundOld).addAll declarations).1
  · exact filed.found found

theorem Filed.work_extend (filed : ledger.Filed) (member : Nat) (declarations : List Declaration) :
    (ledger.extend member declarations).work = ledger.work.extend member declarations := by
  have arena : (ledger.extend member declarations).work.arena = (ledger.work.extend member declarations).arena := by
    apply Array.ext_getElem?
    intro other
    rw [Work.arena_extend, arena_work, arena_work, Ledger.extend, Array.getElem?_modify]
    cases found : ledger.arena[other]? with
    | none => simp
    | some entry =>
      by_cases same : member = other
      · simp [same, ((filed.found found).addAll declarations).2]
      · simp [same]
  exact congrArg (fun arena => (⟨arena, ledger.index, ledger.placed⟩ : Work)) arena

theorem work_place (ledger : Ledger) (attachment : String) (member : Nat) :
    (ledger.place attachment member).work = ledger.work.place attachment member := by
  unfold place Work.place
  rw [arena_work]
  cases ledger.arena[member]? <;> rfl

theorem Filed.place (filed : ledger.Filed) (attachment : String) (member : Nat) : (ledger.place attachment member).Filed := by
  unfold Ledger.place
  cases ledger.arena[member]? <;> exact filed

/-- The outcome of a visit without the ids. -/
def outcome (answer : Ledger × List Nat) : Work × List Nat := (answer.1.work, answer.2)

theorem Filed.split (filed : ledger.Filed) (incoming : Definition) (member : Nat) {entry : Entry} (own : entry.Filed)
    (filters : FilterSet) : (ledger.split incoming member entry filters).1.Filed ∧
      outcome (ledger.split incoming member entry filters) =
        Inheritance.split incoming ledger.work member entry.definition filters := by
  have filedCopy := ((own.withFilters filters).addAll incoming.declarations).1
  have copy : ((entry.withFilters filters).addAll incoming.declarations).definition =
      { entry.definition with filters }.addDeclarations incoming.declarations :=
    ((own.withFilters filters).addAll incoming.declarations).2
  unfold Ledger.split Inheritance.split
  rw [find?_work]
  cases ledger.find? incoming.attachment filters.text with
  | some known => exact ⟨filed.extend known _, congrArg (·, [member]) (filed.work_extend known _)⟩
  | none =>
    dsimp only
    rw [copy]
    split
    · exact ⟨filed.push filedCopy, by rw [outcome, work_register, work_push, copy, size_work]⟩
    · exact ⟨filed, rfl⟩

theorem Filed.absorb (filed : ledger.Filed) (incoming : Definition) (member : Nat) {entry : Entry} (own : entry.Filed) :
    (ledger.absorb incoming member entry).1.Filed ∧
      outcome (ledger.absorb incoming member entry) = Inheritance.absorb incoming ledger.work member entry.definition := by
  obtain ⟨filedCopy, copy⟩ := own.addAll incoming.declarations
  unfold Ledger.absorb Inheritance.absorb
  rw [find?_work]
  split
  · exact ⟨filed.push filedCopy, by rw [outcome, work_push, copy, size_work]⟩
  · exact ⟨filed.extend member _, by rw [outcome, filed.work_extend]⟩

theorem Filed.visit (filed : ledger.Filed) (incoming : Definition) (member : Nat) :
    (ledger.visit incoming member).1.Filed ∧
      outcome (ledger.visit incoming member) = Inheritance.visit incoming ledger.work member := by
  unfold Ledger.visit Inheritance.visit
  rw [arena_work]
  cases found : ledger.arena[member]? with
  | none => exact ⟨filed, rfl⟩
  | some entry =>
    have own := filed.found found
    dsimp only [Option.map_some]
    cases entry.definition.filters.merge incoming.filters with
    | conflict => exact ⟨filed, rfl⟩
    | unchanged => exact filed.absorb incoming member own
    | merged filters => exact filed.split incoming member own filters

end Ledger
end MapStyle.Inheritance
