import MapStyle.Proofs.Sheet.Chain
import MapStyle.Sheet.Reader
/-!
Numbering. Reading takes source indexes one after the other, for selectors and declarations only; so what a sheet holds
has the indexes from the start of the numbering to its end, each once. Identities of expressions are taken for filters and
variables too, but no two declarations have values with the same.
-/
namespace MapStyle

theorem Declaration.ofName_eq (fullName : String) (value : Expression) (index : Nat) (place : Place) :
    Declaration.ofName fullName value index place =
      ⟨(splitName fullName).1, (splitName fullName).2, value, index, place, Zoom.all⟩ := rfl

namespace Reader

section reading
variable {α β : Type} {start stop : Numbering}

theorem bind_ok {reading : Reading α} {next : α → Reading β} {b : β}
    (ran : (reading >>= next) start = .ok (b, stop)) :
    ∃ a middle, reading start = .ok (a, middle) ∧ next a middle = .ok (b, stop) := by
  change (reading start >>= fun read => next read.1 read.2) = .ok (b, stop) at ran
  cases first : reading start with
  | error error => rw [first] at ran; cases ran
  | ok read =>
    rw [first] at ran
    exact ⟨read.1, read.2, rfl, ran⟩

theorem pure_ok {a b : α} (ran : (pure a : Reading α) start = .ok (b, stop)) : b = a ∧ stop = start := by
  obtain ⟨rfl, rfl⟩ := Prod.mk.inj (Except.ok.inj ran)
  exact ⟨rfl, rfl⟩

/-- A reading that takes no source index, but perhaps identities. -/
def Quiet (reading : Reading α) : Prop :=
  ∀ {start stop : Numbering} {a : α}, reading start = .ok (a, stop) →
    stop.nextIndex = start.nextIndex ∧ start.nextId ≤ stop.nextId

theorem Quiet.pure (a : α) : Quiet (pure a : Reading α) := fun ran => by simp [(pure_ok ran).2]

theorem Quiet.bind {reading : Reading α} {next : α → Reading β} (first : Quiet reading) (rest : ∀ a, Quiet (next a)) :
    Quiet (reading >>= next) := by
  intro start stop b ran
  obtain ⟨a, middle, before, after⟩ := bind_ok ran
  obtain ⟨sameIndex, moreIds⟩ := first before
  obtain ⟨sameIndexAfter, moreIdsAfter⟩ := rest a after
  exact ⟨sameIndexAfter.trans sameIndex, Nat.le_trans moreIds moreIdsAfter⟩

theorem Quiet.fail (flaw : Flaw) (place : Place) : Quiet (fail flaw place : Reading α) := fun ran => by cases ran

theorem Quiet.lift (attempt : Except StyleError α) : Quiet (liftM attempt : Reading α) := by
  intro start stop a ran
  cases attempt with
  | error error => cases ran
  | ok value =>
    obtain ⟨-, rfl⟩ := Prod.mk.inj (Except.ok.inj ran)
    exact ⟨rfl, Nat.le_refl _⟩

end reading

theorem readValue_quiet (place : Place) (items : List Lexeme) : Quiet (readValue place items) :=
  Quiet.bind (Quiet.lift _) fun _ => Quiet.pure _

theorem readExpression_quiet (place : Place) (items : List Lexeme) : Quiet (readExpression place items) := by
  refine Quiet.bind (readValue_quiet place items) fun value => ?_
  intro start stop a ran
  obtain ⟨-, rfl⟩ := Prod.mk.inj (Except.ok.inj ran)
  exact ⟨rfl, Nat.le_succ _⟩

theorem readFilter_quiet (place : Place) (items : List Lexeme) : Quiet (readFilter place items) := by
  unfold readFilter
  dsimp only
  split
  · exact Quiet.fail _ _
  · refine Quiet.bind ?_ fun key => ?_
    · unfold filterKey
      split
      · exact Quiet.fail _ _
      · exact Quiet.pure _
      · exact Quiet.pure _
    · split
      · exact Quiet.fail _ _
      · exact Quiet.bind (readExpression_quiet _ _) fun value => Quiet.pure _

theorem readSelectorParts_quiet (place : Place) (items : List Lexeme) : Quiet (readSelectorParts place items) := by
  fun_induction readSelectorParts place items with
  | case1 => exact Quiet.pure _
  | case2 _ _ _ ih => exact Quiet.bind ih fun parts => Quiet.pure _
  | case3 _ _ _ ih => exact Quiet.bind ih fun parts => Quiet.pure _
  | case4 _ _ _ _ ih => exact Quiet.bind ih fun parts => Quiet.pure _
  | case5 => exact Quiet.fail _ _
  | case6 _ _ ih => exact Quiet.bind ih fun parts => Quiet.pure _
  | case7 _ _ _ ih => exact Quiet.bind (readFilter_quiet _ _) fun part => Quiet.bind ih fun parts => Quiet.pure _
  | case8 _ _ _ _ _ ih => exact Quiet.bind ih fun parts => Quiet.pure _
  | case9 => exact Quiet.fail _ _
  | case10 => exact Quiet.fail _ _

def Takes (start stop : Nat) (indexes : List Nat) : Prop :=
  stop = start + indexes.length ∧ indexes.Perm (List.range' start indexes.length)

theorem Takes.none (start : Nat) : Takes start start [] := ⟨rfl, .refl _⟩

theorem Takes.one (start : Nat) : Takes start (start + 1) [start] := ⟨rfl, .refl _⟩

theorem Takes.append {start middle stop : Nat} {first second : List Nat} (before : Takes start middle first)
    (after : Takes middle stop second) : Takes start stop (first ++ second) := by
  obtain ⟨rfl, permFirst⟩ := before
  obtain ⟨rfl, permSecond⟩ := after
  refine ⟨by rw [List.length_append, Nat.add_assoc], ?_⟩
  rw [List.length_append, ← List.range'_append_1]
  exact permFirst.append permSecond

theorem Takes.perm {start stop : Nat} {first second : List Nat} (takes : Takes start stop first)
    (same : second.Perm first) : Takes start stop second :=
  ⟨same.length_eq ▸ takes.1, same.trans (same.length_eq ▸ takes.2)⟩

theorem Takes.nodup {start stop : Nat} {indexes : List Nat} (takes : Takes start stop indexes) : indexes.Nodup :=
  takes.2.nodup_iff.mpr List.nodup_range'

/-- `ids` are between `start` and `stop`, none of them twice. -/
structure Apart (start stop : Nat) (ids : List Nat) : Prop where
  le : start ≤ stop
  nodup : ids.Nodup
  between : ∀ id ∈ ids, start ≤ id ∧ id < stop

theorem Apart.none {start stop : Nat} (le : start ≤ stop) : Apart start stop [] := ⟨le, List.nodup_nil, by simp⟩

theorem Apart.append {start middle stop : Nat} {first second : List Nat} (before : Apart start middle first)
    (after : Apart middle stop second) : Apart start stop (first ++ second) where
  le := Nat.le_trans before.le after.le
  nodup := by
    refine List.nodup_append'.mpr ⟨before.nodup, after.nodup, fun id inFirst inSecond => ?_⟩
    have := before.between id inFirst
    have := after.between id inSecond
    omega
  between := by
    have := before.le
    have := after.le
    rw [List.forall_mem_append]
    constructor
    · intro id inFirst
      have := before.between id inFirst
      omega
    · intro id inSecond
      have := after.between id inSecond
      omega

theorem Apart.perm {start stop : Nat} {first second : List Nat} (apart : Apart start stop first)
    (same : second.Perm first) : Apart start stop second :=
  ⟨apart.le, same.nodup_iff.mpr apart.nodup, fun id inside => apart.between id (same.mem_iff.mp inside)⟩

theorem readExpression_apart {place : Place} {items : List Lexeme} {start stop : Numbering} {value : Expression}
    (ran : readExpression place items start = .ok (value, stop)) : Apart start.nextId stop.nextId [value.id] := by
  obtain ⟨parts, middle, read, ran⟩ := bind_ok ran
  have := (readValue_quiet place items read).2
  obtain ⟨rfl, rfl⟩ := Prod.mk.inj (Except.ok.inj ran)
  refine ⟨by dsimp only; omega, List.nodup_singleton _, List.forall_mem_singleton.mpr ?_⟩
  dsimp only
  omega

theorem takeIndex_ok {start stop : Numbering} {index : Nat} (ran : takeIndex start = .ok (index, stop)) :
    Takes start.nextIndex stop.nextIndex [index] ∧ stop.nextId = start.nextId := by
  obtain ⟨rfl, rfl⟩ := Prod.mk.inj (Except.ok.inj ran)
  exact ⟨Takes.one _, rfl⟩

theorem readSelector_takes {fallback : Place} {items : List Lexeme} {start stop : Numbering} {selector : WrittenSelector}
    (ran : readSelector fallback items start = .ok (selector, stop)) :
    Takes start.nextIndex stop.nextIndex [selector.index] ∧ start.nextId ≤ stop.nextId := by
  unfold readSelector at ran
  obtain ⟨parts, middle, readParts, ran⟩ := bind_ok ran
  have quiet := readSelectorParts_quiet _ _ readParts
  split at ran
  · cases ran
  · obtain ⟨index, last, taken, ran⟩ := bind_ok ran
    obtain ⟨rfl, rfl⟩ := pure_ok ran
    obtain ⟨takes, sameId⟩ := takeIndex_ok taken
    exact ⟨quiet.1 ▸ takes, sameId ▸ quiet.2⟩

theorem readSelectors_takes {fallback : Place} {parts : List (List Lexeme)} {start stop : Numbering}
    {selectors : List WrittenSelector} (ran : readSelectors fallback parts start = .ok (selectors, stop)) :
    Takes start.nextIndex stop.nextIndex (selectors.map WrittenSelector.index) ∧ start.nextId ≤ stop.nextId := by
  induction parts generalizing start selectors with
  | nil =>
    obtain ⟨rfl, rfl⟩ := pure_ok ran
    exact ⟨Takes.none _, Nat.le_refl _⟩
  | cons part rest ih =>
    obtain ⟨selector, middle, first, ran⟩ := bind_ok ran
    obtain ⟨others, last, readRest, ran⟩ := bind_ok ran
    obtain ⟨rfl, rfl⟩ := pure_ok ran
    obtain ⟨takes, more⟩ := readSelector_takes first
    obtain ⟨takesRest, moreRest⟩ := ih readRest
    exact ⟨takes.append takesRest, Nat.le_trans more moreRest⟩

theorem readDeclaration_takes {place : Place} {items : List Lexeme} {start stop : Numbering} {declaration : Declaration}
    (ran : readDeclaration place items start = .ok (declaration, stop)) :
    Takes start.nextIndex stop.nextIndex [declaration.index] ∧ Apart start.nextId stop.nextId [declaration.value.id] ∧
      declaration.zoom = Zoom.all := by
  unfold readDeclaration at ran
  dsimp only at ran
  split at ran
  · cases ran
  · split at ran
    · cases ran
    · obtain ⟨value, middle, readValue, ran⟩ := bind_ok ran
      obtain ⟨index, last, taken, ran⟩ := bind_ok ran
      obtain ⟨isNamed, rfl⟩ := pure_ok ran
      obtain ⟨takes, sameId⟩ := takeIndex_ok taken
      have sameIndex := (readExpression_quiet _ _ readValue).1
      have apart := readExpression_apart readValue
      rw [isNamed, Declaration.ofName_eq]
      exact ⟨sameIndex ▸ takes, sameId ▸ apart, rfl⟩

/-- Declarations are numbered on from `start` to `stop` and are visible at all levels. -/
structure Numbered (start stop : Numbering) (declarations : List Declaration) : Prop where
  takes : Takes start.nextIndex stop.nextIndex (declarations.map Declaration.index)
  apart : Apart start.nextId stop.nextId (declarations.map fun declaration => declaration.value.id)
  isAll : ∀ declaration ∈ declarations, declaration.zoom = Zoom.all

theorem endStatement_numbered {file : String} {pending : Pending} {start stop : Numbering} {add : Block → Block}
    (ran : endStatement file pending start = .ok (add, stop)) :
    ∃ declarations : List Declaration, Numbered start stop declarations ∧
      ∀ block, (add block).declarations = declarations ++ block.declarations ∧ (add block).rulesets = block.rulesets := by
  rcases pending with _ | ⟨name, items, line⟩ | ⟨items, line⟩
  · obtain ⟨rfl, rfl⟩ := pure_ok ran
    exact ⟨[], ⟨Takes.none _, Apart.none (Nat.le_refl _), by simp⟩, fun block => ⟨rfl, rfl⟩⟩
  · obtain ⟨entry, middle, readEntry, ran⟩ := bind_ok ran
    obtain ⟨rfl, rfl⟩ := pure_ok ran
    have quiet : Quiet (readVariable ⟨file, line⟩ name items.reverse) := by
      unfold readVariable
      split
      · exact Quiet.bind (readExpression_quiet _ _) fun value => Quiet.pure _
      · exact Quiet.fail _ _
    obtain ⟨sameIndex, moreIds⟩ := quiet readEntry
    exact ⟨[], ⟨sameIndex ▸ Takes.none _, Apart.none moreIds, by simp⟩, fun block => ⟨rfl, rfl⟩⟩
  · obtain ⟨declaration, middle, read, ran⟩ := bind_ok ran
    obtain ⟨rfl, rfl⟩ := pure_ok ran
    obtain ⟨takes, apart, isAll⟩ := readDeclaration_takes read
    exact ⟨[declaration], ⟨takes, apart, by simpa using isAll⟩, fun block => ⟨rfl, rfl⟩⟩

/-- The identities of the values that a block and its rulesets declare. -/
def Block.ids (block : Block) : List Nat :=
  (block.declarations.map fun declaration => declaration.value.id) ++ (Ruleset.valuesAll block.rulesets).map Expression.id

/-- The declarations of a block and of its rulesets are visible at all levels, their indexes are those taken, and their values
are told apart by identities that were taken. -/
structure Fresh (start stop : Numbering) (block : Block) : Prop where
  takes : Takes start.nextIndex stop.nextIndex (block.declarations.map Declaration.index ++ Ruleset.indexesAll block.rulesets)
  apart : Apart start.nextId stop.nextId block.ids
  direct : ∀ declaration ∈ block.declarations, declaration.zoom = Zoom.all
  nested : ∀ {outer : List Ruleset} {last : Ruleset}, Chain block.rulesets outer last →
    ∀ declaration ∈ last.declarations, declaration.zoom = Zoom.all

theorem Fresh.nothing (here : Numbering) : Fresh here here ⟨[], [], []⟩ :=
  ⟨Takes.none _, Apart.none (Nat.le_refl _), by simp, fun chain => by cases chain <;> simp at *⟩

theorem Fresh.addStatement {start middle stop : Numbering} {declarations : List Declaration} {add : Block → Block}
    {block : Block} (numbered : Numbered start middle declarations)
    (adds : (add block).declarations = declarations ++ block.declarations ∧ (add block).rulesets = block.rulesets)
    (fresh : Fresh middle stop block) : Fresh start stop (add block) where
  takes := by
    rw [adds.1, adds.2, List.map_append, List.append_assoc]
    exact numbered.takes.append fresh.takes
  apart := by
    rw [Block.ids, adds.1, adds.2, List.map_append, List.append_assoc]
    exact numbered.apart.append fresh.apart
  direct := by
    rw [adds.1]
    exact List.forall_mem_append.mpr ⟨numbered.isAll, fresh.direct⟩
  nested := by
    rw [adds.2]
    exact fresh.nested

/-- A ruleset takes the numbers of its selectors and those of its body before what follows it takes any. -/
theorem Fresh.addRuleset {start middle last stop : Numbering} {selectors : List WrittenSelector} {inner after : Block}
    {place : Place} (takes : Takes start.nextIndex middle.nextIndex (selectors.map WrittenSelector.index))
    (moreIds : start.nextId ≤ middle.nextId) (body : Fresh middle last inner) (rest : Fresh last stop after) :
    Fresh start stop ⟨inner.bindings ++ after.bindings, after.declarations,
      .mk selectors inner.declarations inner.rulesets place :: after.rulesets⟩ where
  takes := by
    -- reading takes the numbers of the ruleset first; a block lists those of its own declarations first
    refine ((takes.append body.takes).append rest.takes).perm ?_
    simp only [Ruleset.indexesAll, Ruleset.indexes]
    refine (List.perm_append_comm_assoc _ _ _).trans ?_
    simp only [List.append_assoc]
    exact .refl _
  apart := by
    refine (((Apart.none moreIds).append body.apart).append rest.apart).perm ?_
    simp only [Block.ids, Ruleset.valuesAll, Ruleset.values, List.map_append, List.map_map, Function.comp_def]
    refine (List.perm_append_comm_assoc _ _ _).trans ?_
    simp only [List.append_assoc, List.nil_append]
    exact .refl _
  direct := rest.direct
  nested := by
    intro outer deepest chain
    cases chain with
    | here member =>
      rcases List.mem_cons.mp member with rfl | inAfter
      · exact body.direct
      · exact rest.nested (.here inAfter)
    | under member inside =>
      rcases List.mem_cons.mp member with rfl | inAfter
      · exact body.nested inside
      · exact rest.nested (.under inAfter inside)

theorem readBlock_fresh {file : String} {pending : Pending} {items : List Lexeme} {start stop : Numbering} {block : Block}
    (ran : readBlock file pending items start = .ok (block, stop)) : Fresh start stop block := by
  -- the end of a block, a ruleset, a group that is none, the end of a statement, and a part of a statement
  fun_induction readBlock file pending items generalizing start stop block with
  | case1 pending =>
    obtain ⟨add, middle, ends, ran⟩ := bind_ok ran
    obtain ⟨rfl, rfl⟩ := pure_ok ran
    obtain ⟨declarations, numbered, adds⟩ := endStatement_numbered ends
    exact (Fresh.nothing _).addStatement numbered (adds _)
  | case2 pending body line rest head firstLine found ihBody ihRest =>
    obtain ⟨selectors, middle, readHead, ran⟩ := bind_ok ran
    obtain ⟨inner, last, readBody, ran⟩ := bind_ok ran
    obtain ⟨after, final, readRest, ran⟩ := bind_ok ran
    obtain ⟨rfl, rfl⟩ := pure_ok ran
    obtain ⟨takes, moreIds⟩ := readSelectors_takes readHead
    exact Fresh.addRuleset takes moreIds (ihBody readBody) (ihRest readRest)
  | case3 pending body line rest found ih => exact ih ran
  | case4 pending item rest notGroup isSemicolon ih =>
    obtain ⟨add, middle, ends, ran⟩ := bind_ok ran
    obtain ⟨after, last, readRest, ran⟩ := bind_ok ran
    obtain ⟨rfl, rfl⟩ := pure_ok ran
    obtain ⟨declarations, numbered, adds⟩ := endStatement_numbered ends
    exact (ih readRest).addStatement numbered (adds _)
  | case5 pending item rest notGroup notSemicolon ih => exact ih ran

end Reader

namespace Sheet
variable {file css : String} {start stop : Reader.Numbering} {sheet : Sheet}

theorem read_block (ran : Sheet.read file css start = .ok (sheet, stop)) :
    Reader.Fresh start stop ⟨sheet.bindings, [], sheet.rulesets⟩ := by
  change Reader.readSheet file css start = .ok (sheet, stop) at ran
  unfold Reader.readSheet at ran
  obtain ⟨block, middle, readBlock, ran⟩ := Reader.bind_ok ran
  have fresh := Reader.readBlock_fresh readBlock
  obtain ⟨bindings, declarations, rulesets⟩ := block
  cases declarations with
  | nil =>
    obtain ⟨rfl, rfl⟩ := Reader.pure_ok ran
    exact fresh
  | cons loose rest => cases ran

/-- In a sheet, no source index stands twice, and all declarations are visible at all levels. -/
theorem read_fresh (ran : Sheet.read file css start = .ok (sheet, stop)) : (Ruleset.indexesAll sheet.rulesets).Nodup ∧
    ∀ {outer : List Ruleset} {last : Ruleset}, Chain sheet.rulesets outer last →
      ∀ declaration ∈ last.declarations, declaration.zoom = Zoom.all :=
  ⟨(read_block ran).takes.nodup, (read_block ran).nested⟩

theorem read_apart (ran : Sheet.read file css start = .ok (sheet, stop)) :
    Reader.Apart start.nextId stop.nextId ((Ruleset.valuesAll sheet.rulesets).map Expression.id) := (read_block ran).apart

end Sheet
end MapStyle
