import MapStyle.Proofs.Sheet.Numbering
/-!
Renumbering of sheets. What is read from another start of the numbering differs in its numbers only: source indexes and
identities of expressions move along with the start, so that nothing else tells where a sheet was read.
-/
namespace MapStyle

/-- New source indexes and new identities of expressions for the old ones. -/
structure Renumbering where
  index : Nat → Nat
  id : Nat → Nat

section renumber
variable (r : Renumbering)

def Expression.renumber (expr : Expression) : Expression := { expr with id := r.id expr.id }

@[simp] theorem Expression.renumber_place (expr : Expression) : (expr.renumber r).place = expr.place := rfl

def Declaration.renumber (declaration : Declaration) : Declaration :=
  { declaration with value := declaration.value.renumber r, index := r.index declaration.index }

@[simp] theorem Declaration.renumber_property (declaration : Declaration) :
    (declaration.renumber r).property = declaration.property := rfl

@[simp] theorem Declaration.renumber_value (declaration : Declaration) :
    (declaration.renumber r).value = declaration.value.renumber r := rfl

@[simp] theorem Declaration.renumber_place (declaration : Declaration) : (declaration.renumber r).place = declaration.place := rfl

@[simp] theorem Declaration.renumber_zoom (declaration : Declaration) : (declaration.renumber r).zoom = declaration.zoom := rfl

def SelectorPart.renumber : SelectorPart → SelectorPart
  | .element selected => .element selected
  | .filter key op value => .filter key op (value.renumber r)
  | .zoom op value => .zoom op (value.renumber r)
  | .attachment joined => .attachment joined

def WrittenSelector.renumber (selector : WrittenSelector) : WrittenSelector :=
  { selector with parts := selector.parts.map (SelectorPart.renumber r), index := r.index selector.index }

mutual
def Ruleset.renumber : Ruleset → Ruleset
  | .mk selectors declarations children place =>
    .mk (selectors.map (WrittenSelector.renumber r)) (declarations.map (Declaration.renumber r))
      (Ruleset.renumberAll children) place

def Ruleset.renumberAll : List Ruleset → List Ruleset
  | [] => []
  | ruleset :: rest => Ruleset.renumber ruleset :: Ruleset.renumberAll rest
end

def Renumbering.binding (binding : String × Expression) : String × Expression := (binding.1, binding.2.renumber r)

def Sheet.renumber (sheet : Sheet) : Sheet :=
  { sheet with bindings := sheet.bindings.map r.binding, rulesets := Ruleset.renumberAll r sheet.rulesets }

def Reader.Block.renumber (block : Reader.Block) : Reader.Block :=
  ⟨block.bindings.map r.binding, block.declarations.map (Declaration.renumber r), Ruleset.renumberAll r block.rulesets⟩

theorem Declaration.renumber_ofName (fullName : String) (value : Expression) (index : Nat) (place : Place) :
    (Declaration.ofName fullName value index place).renumber r =
      Declaration.ofName fullName (value.renumber r) (r.index index) place := by
  rw [ofName_eq, ofName_eq]
  rfl

/-- The numbers taken from `start` to `stop` are those taken from `later` on. -/
structure Renumbering.Moves (start stop later : Reader.Numbering) : Prop where
  index : ∀ n, start.nextIndex ≤ n → n < stop.nextIndex → r.index n + start.nextIndex = later.nextIndex + n
  id : ∀ n, start.nextId ≤ n → n < stop.nextId → r.id n + start.nextId = later.nextId + n

end renumber

/-- Moves the numbers from `start` on to `later`. -/
def Renumbering.between (start later : Reader.Numbering) : Renumbering where
  index n := later.nextIndex + (n - start.nextIndex)
  id n := later.nextId + (n - start.nextId)

theorem Renumbering.between_moves (start stop later : Reader.Numbering) : (between start later).Moves start stop later where
  index n low _ := by dsimp only [between]; omega
  id n low _ := by dsimp only [between]; omega

/-- Where `start` to `stop` is taken from one start, `later` to `last` is from another. -/
structure Reader.Along (start stop later last : Reader.Numbering) : Prop where
  index : last.nextIndex + start.nextIndex = later.nextIndex + stop.nextIndex
  id : last.nextId + start.nextId = later.nextId + stop.nextId

namespace Renumbering.Moves
variable {r : Renumbering} {start middle stop later between : Reader.Numbering} (moves : r.Moves start stop later)
include moves

theorem front (index : middle.nextIndex ≤ stop.nextIndex) (id : middle.nextId ≤ stop.nextId) : r.Moves start middle later where
  index n low high := moves.index n low (Nat.lt_of_lt_of_le high index)
  id n low high := moves.id n low (Nat.lt_of_lt_of_le high id)

theorem back (index : start.nextIndex ≤ middle.nextIndex) (id : start.nextId ≤ middle.nextId)
    (along : Reader.Along start middle later between) : r.Moves middle stop between where
  index := by
    intro n low high
    have := moves.index n (Nat.le_trans index low) high
    have := along.index
    omega
  id := by
    intro n low high
    have := moves.id n (Nat.le_trans id low) high
    have := along.id
    omega

end Renumbering.Moves

namespace Reader
variable {α β : Type} {r : Renumbering}

/-- Where `reading` succeeds, `other` succeeds from any other start, and their results are the `same` up to numbers. -/
def Follows (r : Renumbering) (same : α → α → Prop) (reading other : Reading α) : Prop :=
  ∀ (start stop : Numbering) (a : α), reading start = .ok (a, stop) →
    (start.nextIndex ≤ stop.nextIndex ∧ start.nextId ≤ stop.nextId) ∧ (∃ b, same a b) ∧
      ∀ later, r.Moves start stop later → ∃ b last, other later = .ok (b, last) ∧ same a b ∧ Along start stop later last

namespace Follows
variable {same : α → α → Prop} {sameNext : β → β → Prop}

theorem pure {a b : α} (isSame : same a b) : Follows r same (Pure.pure a) (Pure.pure b) := by
  intro start stop result ran
  obtain ⟨rfl, rfl⟩ := pure_ok ran
  exact ⟨⟨Nat.le_refl _, Nat.le_refl _⟩, ⟨b, isSame⟩, fun later _ => ⟨b, later, rfl, isSame, rfl, rfl⟩⟩

theorem fail (flaw : Flaw) (place : Place) (other : Reading α) : Follows r same (Reader.fail flaw place) other :=
  fun _ _ _ ran => by cases ran

theorem lift (attempt : Except StyleError α) : Follows r Eq (liftM attempt : Reading α) (liftM attempt) := by
  cases attempt with
  | error error => exact fun _ _ _ ran => by cases ran
  | ok a => exact Follows.pure rfl

theorem bind {reading other : Reading α} {next nextOther : α → Reading β} (first : Follows r same reading other)
    (rest : ∀ a b, same a b → Follows r sameNext (next a) (nextOther b)) :
    Follows r sameNext (reading >>= next) (other >>= nextOther) := by
  intro start stop result ran
  obtain ⟨a, middle, before, after⟩ := bind_ok ran
  obtain ⟨⟨moreIndexes, moreIds⟩, ⟨b, isSame⟩, repeats⟩ := first start middle a before
  obtain ⟨⟨stillIndexes, stillIds⟩, isSameNext, -⟩ := rest a b isSame middle stop result after
  refine ⟨⟨Nat.le_trans moreIndexes stillIndexes, Nat.le_trans moreIds stillIds⟩, isSameNext, fun later moves => ?_⟩
  obtain ⟨b, between, ranOther, isSame, along⟩ := repeats later (moves.front stillIndexes stillIds)
  obtain ⟨-, -, repeatsRest⟩ := rest a b isSame middle stop result after
  obtain ⟨c, last, ranRest, isSameNext, alongRest⟩ := repeatsRest between (moves.back moreIndexes moreIds along)
  refine ⟨c, last, ?_, isSameNext, ?_, ?_⟩
  · change (other later >>= fun read => nextOther read.1 read.2) = _
    rw [ranOther]
    exact ranRest
  · have := along.index
    have := alongRest.index
    omega
  · have := along.id
    have := alongRest.id
    omega

end Follows

theorem takeIndex_follows : Follows r (fun index other => other = r.index index) takeIndex takeIndex := by
  intro start stop index ran
  obtain ⟨rfl, rfl⟩ := Prod.mk.inj (Except.ok.inj ran)
  refine ⟨⟨Nat.le_succ _, Nat.le_refl _⟩, ⟨_, rfl⟩, fun later moves => ?_⟩
  have moved := moves.index start.nextIndex (Nat.le_refl _) (Nat.lt_succ_self _)
  refine ⟨later.nextIndex, { later with nextIndex := later.nextIndex + 1 }, rfl, by omega, ?_, rfl⟩
  dsimp only
  omega

theorem newExpression_follows (value : Value) (place : Place) :
    Follows r (fun expr other => other = expr.renumber r) (newExpression value place) (newExpression value place) := by
  intro start stop expr ran
  obtain ⟨rfl, rfl⟩ := Prod.mk.inj (Except.ok.inj ran)
  refine ⟨⟨Nat.le_refl _, Nat.le_succ _⟩, ⟨_, rfl⟩, fun later moves => ?_⟩
  have moved : r.id start.nextId = later.nextId := by
    have := moves.id start.nextId (Nat.le_refl _) (Nat.lt_succ_self _)
    omega
  refine ⟨_, _, rfl, ?_, rfl, ?_⟩
  · simp only [Expression.renumber, moved]
  · dsimp only
    omega

theorem readExpression_follows (place : Place) (items : List Lexeme) :
    Follows r (fun expr other => other = expr.renumber r) (readExpression place items) (readExpression place items) := by
  refine @Follows.bind _ _ r Eq _ _ _ _ _ ?_ ?_
  · apply Follows.bind (Follows.lift _)
    rintro parts _ rfl
    exact Follows.pure rfl
  · rintro value _ rfl
    exact newExpression_follows value place

theorem readFilter_follows (place : Place) (items : List Lexeme) :
    Follows r (fun part other => other = part.renumber r) (readFilter place items) (readFilter place items) := by
  unfold readFilter
  dsimp only
  split
  · exact Follows.fail _ _ _
  · refine @Follows.bind _ _ r Eq _ _ _ _ _ ?_ ?_
    · unfold filterKey
      split
      · exact Follows.fail _ _ _
      · exact Follows.pure rfl
      · exact Follows.pure rfl
    · rintro key _ rfl
      split
      · exact Follows.fail _ _ _
      · apply Follows.bind (readExpression_follows _ _)
        rintro value _ rfl
        apply Follows.pure
        split <;> rfl

/-- A list is read from its first to its last, and follows if each of its items does. -/
theorem Follows.cons {ren : α → α} {reading : Reading α} {others : Reading (List α)}
    (first : Follows r (fun a b => b = ren a) reading reading)
    (rest : Follows r (fun a b => b = a.map ren) others others) :
    Follows r (fun a b => b = a.map ren) (do return (← reading) :: (← others)) (do return (← reading) :: (← others)) := by
  apply Follows.bind first
  rintro a _ rfl
  apply Follows.bind rest
  rintro as _ rfl
  exact Follows.pure rfl

theorem readSelectorParts_follows (place : Place) (items : List Lexeme) :
    Follows r (fun parts other => other = parts.map (SelectorPart.renumber r)) (readSelectorParts place items)
      (readSelectorParts place items) := by
  -- a part without a value has no number
  have unnumbered : ∀ {part : SelectorPart}, part.renumber r = part →
      Follows r (fun a b => b = a.renumber r) (Pure.pure part) (Pure.pure part) := fun same => Follows.pure same.symm
  fun_induction readSelectorParts place items with
  | case1 => exact Follows.pure rfl
  | case2 _ _ _ ih => exact Follows.cons (unnumbered rfl) ih
  | case3 _ _ _ ih => exact Follows.cons (unnumbered rfl) ih
  | case4 _ _ _ _ ih => exact Follows.cons (unnumbered rfl) ih
  | case5 => exact Follows.fail _ _ _
  | case6 _ _ ih => exact Follows.cons (unnumbered rfl) ih
  | case7 _ _ _ ih => exact Follows.cons (readFilter_follows _ _) ih
  | case8 _ _ _ _ _ ih => exact Follows.cons (unnumbered rfl) ih
  | case9 => exact Follows.fail _ _ _
  | case10 => exact Follows.fail _ _ _

theorem readSelector_follows (fallback : Place) (items : List Lexeme) :
    Follows r (fun selector other => other = selector.renumber r) (readSelector fallback items)
      (readSelector fallback items) := by
  unfold readSelector
  apply Follows.bind (readSelectorParts_follows _ _)
  rintro parts _ rfl
  rw [List.isEmpty_map]
  split
  · exact Follows.fail _ _ _
  · apply Follows.bind takeIndex_follows
    rintro index _ rfl
    exact Follows.pure rfl

theorem readSelectors_follows (fallback : Place) (parts : List (List Lexeme)) :
    Follows r (fun selectors other => other = selectors.map (WrittenSelector.renumber r)) (readSelectors fallback parts)
      (readSelectors fallback parts) := by
  induction parts with
  | nil => exact Follows.pure rfl
  | cons part rest ih => exact Follows.cons (readSelector_follows fallback part) ih

theorem readDeclaration_follows (place : Place) (items : List Lexeme) :
    Follows r (fun declaration other => other = declaration.renumber r) (readDeclaration place items)
      (readDeclaration place items) := by
  unfold readDeclaration
  dsimp only
  split
  · exact Follows.fail _ _ _
  · split
    · exact Follows.fail _ _ _
    · apply Follows.bind (readExpression_follows _ _)
      rintro value _ rfl
      apply Follows.bind takeIndex_follows
      rintro index _ rfl
      exact Follows.pure (Declaration.renumber_ofName r _ value index place).symm

theorem readVariable_follows (place : Place) (name : String) (items : List Lexeme) :
    Follows r (fun binding other => other = r.binding binding) (readVariable place name items)
      (readVariable place name items) := by
  unfold readVariable
  split
  · apply Follows.bind (readExpression_follows _ _)
    rintro value _ rfl
    exact Follows.pure rfl
  · exact Follows.fail _ _ _

/-- What the end of a statement adds to a block does not depend on the numbers in the block. -/
theorem endStatement_follows (file : String) (pending : Pending) :
    Follows r (fun add other => ∀ block, other (block.renumber r) = (add block).renumber r) (endStatement file pending)
      (endStatement file pending) := by
  cases pending with
  | idle => exact Follows.pure fun block => rfl
  | «variable» name items line =>
    apply Follows.bind (readVariable_follows _ _ _)
    rintro binding _ rfl
    exact Follows.pure fun block => rfl
  | statement items line =>
    apply Follows.bind (readDeclaration_follows _ _)
    rintro declaration _ rfl
    exact Follows.pure fun block => rfl

theorem readBlock_follows (file : String) (pending : Pending) (items : List Lexeme) :
    Follows r (fun block other => other = block.renumber r) (readBlock file pending items) (readBlock file pending items) := by
  fun_induction readBlock file pending items with
  | case1 pending =>
    apply Follows.bind (endStatement_follows file pending)
    intro add other adds
    exact Follows.pure (adds ⟨[], [], []⟩)
  | case2 pending body line rest head firstLine found ihBody ihRest =>
    apply Follows.bind (readSelectors_follows _ _)
    rintro selectors _ rfl
    apply Follows.bind ihBody
    rintro inner _ rfl
    apply Follows.bind ihRest
    rintro after _ rfl
    apply Follows.pure
    simp [Block.renumber, Ruleset.renumberAll, Ruleset.renumber]
  | case3 pending body line rest found ih => exact ih
  | case4 pending item rest notGroup isSemicolon ih =>
    apply Follows.bind (endStatement_follows file pending)
    intro add other adds
    apply Follows.bind ih
    rintro block _ rfl
    exact Follows.pure (adds block)
  | case5 pending item rest notGroup notSemicolon ih => exact ih

theorem readSheet_follows (file css : String) :
    Follows r (fun sheet other => other = sheet.renumber r) (readSheet file css) (readSheet file css) := by
  unfold readSheet
  apply Follows.bind (readBlock_follows _ _ _)
  rintro ⟨bindings, declarations, rulesets⟩ _ rfl
  cases declarations with
  | nil => exact Follows.pure rfl
  | cons loose rest => exact Follows.fail _ _ _

end Reader

namespace Sheet
variable {file css : String} {start stop later : Reader.Numbering} {sheet : Sheet}

theorem read_renumber (r : Renumbering) (ran : Sheet.read file css start = .ok (sheet, stop))
    (moves : r.Moves start stop later) :
    ∃ last, Sheet.read file css later = .ok (sheet.renumber r, last) ∧ Reader.Along start stop later last := by
  obtain ⟨-, -, repeats⟩ := @Reader.readSheet_follows r file css start stop sheet ran
  obtain ⟨_, last, ranLater, rfl, along⟩ := repeats later moves
  exact ⟨last, ranLater, along⟩

theorem read_le (ran : Sheet.read file css start = .ok (sheet, stop)) :
    start.nextIndex ≤ stop.nextIndex ∧ start.nextId ≤ stop.nextId :=
  (@Reader.readSheet_follows ⟨id, id⟩ file css start stop sheet ran).1

/-- A source that cannot be read from one start cannot be read from any. -/
theorem read_fails {error : StyleError} (failed : Sheet.read file css start = .error error) :
    ∃ error, Sheet.read file css later = .error error := by
  cases ran : Sheet.read file css later with
  | error error => exact ⟨error, rfl⟩
  | ok result =>
    obtain ⟨sheet, last⟩ := result
    obtain ⟨_, again, -⟩ := read_renumber _ ran (Renumbering.between_moves later last start)
    rw [failed] at again
    cases again

end Sheet
end MapStyle
