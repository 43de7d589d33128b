import MapStyle.Proofs.Renumbering.Cascade
import MapStyle.StyledMap.Stylesheets
/-!
Renumbering of lists of sources. A source that cannot be read is passed over wherever it stands. Any other source moves the
numbers of what comes after it, and leaves those before it as they are.
-/
namespace MapStyle
open Reader

namespace Renumbering

def past (start stop : Numbering) : Renumbering where
  index n := if n < start.nextIndex then n else n + (stop.nextIndex - start.nextIndex)
  id n := if n < start.nextId then n else n + (stop.nextId - start.nextId)

variable (start stop : Numbering)

theorem past_strictMono : StrictMono (past start stop).index := by
  intro m n less
  simp only [past]
  split <;> split <;> omega

theorem past_injective : Function.Injective (past start stop).id := by
  intro m n same
  simp only [past] at same
  split at same <;> split at same <;> omega

theorem past_before (first : Numbering) : (past start stop).Moves first start first where
  index n low high := by simp only [past, if_pos high]; omega
  id n low high := by simp only [past, if_pos high]; omega

theorem past_behind (index : start.nextIndex ≤ stop.nextIndex) (id : start.nextId ≤ stop.nextId) (last : Numbering) :
    (past start stop).Moves start last stop where
  index n low high := by simp only [past, if_neg (Nat.not_lt.mpr low)]; omega
  id n low high := by simp only [past, if_neg (Nat.not_lt.mpr low)]; omega

end Renumbering

namespace Source

/-- Whether a source cannot be read. -/
def Unreadable (source : Source) : Prop := ∃ start error, Sheet.read source.name source.css start = .error error

/-- Whether a source can be read and defines no variables, but cannot be flattened with those that are defined. -/
def Unflattened (source : Source) (scope : Scope) : Prop :=
  ∃ start sheet stop error, Sheet.read source.name source.css start = .ok (sheet, stop) ∧ sheet.bindings = [] ∧
    sheet.definitions scope = .error error

-- where the numbers of a source start makes no difference to either

theorem Unreadable.read {source : Source} (unreadable : source.Unreadable) (later : Numbering) :
    ∃ error, Sheet.read source.name source.css later = .error error := by
  obtain ⟨start, error, failed⟩ := unreadable
  exact Sheet.read_fails failed

theorem Unflattened.read {source : Source} {scope : Scope} (unflattened : source.Unflattened scope) (later : Numbering) :
    ∃ sheet stop error, Sheet.read source.name source.css later = .ok (sheet, stop) ∧ sheet.bindings = [] ∧
      sheet.definitions scope = .error error := by
  obtain ⟨start, sheet, stop, error, ran, unbound, fails⟩ := unflattened
  obtain ⟨last, again, -⟩ := Sheet.read_renumber _ ran (Renumbering.between_moves start stop later)
  refine ⟨_, last, error, again, ?_, ?_⟩
  · rw [Sheet.renumber, unbound, List.map_nil]
  · rw [Sheet.definitions_renumber _ rfl, fails]
    rfl

end Source

namespace Stylesheets

/-- The numbering after sources are read. -/
def after (numbering : Numbering) : List Source → Numbering
  | [] => numbering
  | source :: rest =>
    match Sheet.read source.name source.css numbering with
    | .ok (_, next) => after next rest
    | .error _ => after numbering rest

theorem readFrom_append (start : Numbering) (front back : List Source) :
    readFrom start (front ++ back) = readFrom start front ++ readFrom (after start front) back := by
  induction front generalizing start with
  | nil => rfl
  | cons source rest ih =>
    rw [List.cons_append, readFrom, readFrom, after]
    cases Sheet.read source.name source.css start with
    | error error => exact ih start
    | ok result => exact congrArg (result.1 :: ·) (ih result.2)

theorem after_le (start : Numbering) (sources : List Source) :
    start.nextIndex ≤ (after start sources).nextIndex ∧ start.nextId ≤ (after start sources).nextId := by
  induction sources generalizing start with
  | nil => exact ⟨Nat.le_refl _, Nat.le_refl _⟩
  | cons source rest ih =>
    rw [after]
    cases ran : Sheet.read source.name source.css start with
    | error error => exact ih start
    | ok result =>
      obtain ⟨moreIndexes, moreIds⟩ := Sheet.read_le ran
      obtain ⟨stillIndexes, stillIds⟩ := ih result.2
      exact ⟨Nat.le_trans moreIndexes stillIndexes, Nat.le_trans moreIds stillIds⟩

theorem readFrom_renumber (r : Renumbering) {start later : Numbering} (sources : List Source)
    (moves : r.Moves start (after start sources) later) :
    readFrom later sources = (readFrom start sources).map (Sheet.renumber r) := by
  induction sources generalizing start later with
  | nil => rfl
  | cons source rest ih =>
    rw [after] at moves
    rw [readFrom, readFrom]
    cases ran : Sheet.read source.name source.css start with
    | error error =>
      obtain ⟨_, fails⟩ := Source.Unreadable.read ⟨start, error, ran⟩ later
      rw [ran] at moves
      rw [fails]
      exact ih moves
    | ok result =>
      obtain ⟨sheet, middle⟩ := result
      rw [ran] at moves
      obtain ⟨moreIndexes, moreIds⟩ := Sheet.read_le ran
      obtain ⟨stillIndexes, stillIds⟩ := after_le middle rest
      obtain ⟨between, again, along⟩ := Sheet.read_renumber r ran (moves.front stillIndexes stillIds)
      rw [again]
      exact congrArg (sheet.renumber r :: ·) (ih (moves.back moreIndexes moreIds along))

theorem readFrom_unreadable {bad : Source} (unreadable : bad.Unreadable) (start : Numbering) (front back : List Source) :
    readFrom start (front ++ bad :: back) = readFrom start (front ++ back) := by
  obtain ⟨error, fails⟩ := unreadable.read (after start front)
  rw [readFrom_append, readFrom_append, readFrom, fails]

theorem readFrom_insert {start stop : Numbering} {front back : List Source} {added : Source} {sheet : Sheet}
    (ran : Sheet.read added.name added.css (after start front) = .ok (sheet, stop)) :
    readFrom start (front ++ added :: back) =
      (readFrom start front).map (Sheet.renumber (.past (after start front) stop)) ++
        sheet :: (readFrom (after start front) back).map (Sheet.renumber (.past (after start front) stop)) := by
  obtain ⟨moreIndexes, moreIds⟩ := Sheet.read_le ran
  have before := readFrom_renumber _ front (Renumbering.past_before (after start front) stop start)
  have behind := readFrom_renumber _ back (Renumbering.past_behind _ _ moreIndexes moreIds (after (after start front) back))
  rw [readFrom_append, readFrom, ran, ← before, ← behind]

/-- What sheets define together. -/
def ofSheets (sheets : List Sheet) : Stylesheets :=
  ⟨scopeOf sheets, Definition.cascade (definitionsOf (scopeOf sheets) sheets)⟩

theorem load_eq_ofSheets (sources : List Source) : load sources = ofSheets (read sources) := rfl

section renumber
variable (r : Renumbering)

def renumber (sheets : Stylesheets) : Stylesheets :=
  ⟨sheets.scope.renumber r, sheets.definitions.map (Definition.renumber r)⟩

theorem foldl_defineVariables_renumber (sheets : List Sheet) (scope : Scope) :
    (sheets.map (Sheet.renumber r)).foldl (fun scope sheet => sheet.defineVariables scope) (scope.renumber r) =
      (sheets.foldl (fun scope sheet => sheet.defineVariables scope) scope).renumber r := by
  induction sheets generalizing scope with
  | nil => rfl
  | cons sheet rest ih =>
    have here : (sheet.renumber r).defineVariables (scope.renumber r) = (sheet.defineVariables scope).renumber r :=
      Scope.defineAll_renumber r scope sheet.bindings
    rw [List.map_cons, List.foldl_cons, List.foldl_cons, here, ih]

theorem scopeOf_renumber (sheets : List Sheet) : scopeOf (sheets.map (Sheet.renumber r)) = (scopeOf sheets).renumber r :=
  foldl_defineVariables_renumber r sheets Scope.empty

theorem definitionsOf_renumber (scope : Scope) (sheets : List Sheet) :
    definitionsOf (scope.renumber r) (sheets.map (Sheet.renumber r)) =
      (definitionsOf scope sheets).map (Definition.renumber r) := by
  simp only [definitionsOf, List.flatMap_map, List.map_flatMap]
  refine List.flatMap_congr fun sheet _ => ?_
  rw [Sheet.definitions_renumber r (Scope.evaluate_renumber r scope)]
  cases sheet.definitions scope <;> rfl

theorem ofSheets_renumber (mono : StrictMono r.index) (sheets : List Sheet) :
    ofSheets (sheets.map (Sheet.renumber r)) = (ofSheets sheets).renumber r := by
  rw [ofSheets, scopeOf_renumber, definitionsOf_renumber, Definition.cascade_renumber r mono]
  rfl

end renumber

theorem ofSheets_unflattened {front back : List Sheet} {sheet : Sheet} {error : StyleError} (unbound : sheet.bindings = [])
    (fails : sheet.definitions (scopeOf (front ++ sheet :: back)) = .error error) :
    ofSheets (front ++ sheet :: back) = ofSheets (front ++ back) := by
  have scope : scopeOf (front ++ sheet :: back) = scopeOf (front ++ back) := by
    simp [scopeOf, Sheet.defineVariables, Scope.defineAll, unbound]
  rw [scope] at fails
  rw [ofSheets, ofSheets, scope]
  simp [definitionsOf, fails, Except.toOption]

theorem load_unflattened {front back : List Source} {bad : Source}
    (unflattened : bad.Unflattened (load (front ++ bad :: back)).scope) :
    ∃ r, StrictMono r.index ∧ Function.Injective r.id ∧ load (front ++ bad :: back) = (load (front ++ back)).renumber r := by
  obtain ⟨sheet, stop, error, ran, unbound, fails⟩ := unflattened.read (after ⟨0, 0⟩ front)
  have inserted : read (front ++ bad :: back) = _ := @readFrom_insert _ _ _ back _ _ ran
  refine ⟨.past (after ⟨0, 0⟩ front) stop, Renumbering.past_strictMono _ _, Renumbering.past_injective _ _, ?_⟩
  rw [load_eq_ofSheets, inserted] at fails ⊢
  rw [ofSheets_unflattened unbound fails, ← List.map_append, ← readFrom_append,
    ofSheets_renumber _ (Renumbering.past_strictMono _ _)]
  rfl

end Stylesheets
end MapStyle
