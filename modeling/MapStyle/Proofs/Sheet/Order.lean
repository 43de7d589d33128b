import MapStyle.Proofs.Sheet.Numbering
/-!
Source order. Of two rulesets of a block, the one that stands first has the smaller source indexes, and so has of two
declarations the one that stands first.
-/
namespace MapStyle
namespace Reader

/-- All indexes of the first ruleset are smaller than those of the second. -/
def Precedes (a b : Ruleset) : Prop := ∀ i ∈ a.indexes, ∀ j ∈ b.indexes, i < j

/-- What a block lists is in the order of its indexes. -/
structure InOrder (block : Block) : Prop where
  declarations : block.declarations.Pairwise fun a b => a.index < b.index
  rulesets : block.rulesets.Pairwise Precedes
  bodies : ∀ ruleset ∈ block.rulesets, ruleset.declarations.Pairwise fun a b => a.index < b.index

theorem Takes.between {start stop : Nat} {indexes : List Nat} (takes : Takes start stop indexes) {index : Nat}
    (taken : index ∈ indexes) : start ≤ index ∧ index < stop := by
  have inRange := takes.2.mem_iff.mp taken
  rw [List.mem_range'_1] at inRange
  rw [takes.1]
  exact inRange

theorem Fresh.between {start stop : Numbering} {block : Block} (fresh : Fresh start stop block) :
    (∀ declaration ∈ block.declarations, start.nextIndex ≤ declaration.index) ∧
      ∀ ruleset ∈ block.rulesets, ∀ index ∈ ruleset.indexes, start.nextIndex ≤ index := by
  constructor
  · intro declaration member
    exact (fresh.takes.between (List.mem_append_left _ (List.mem_map_of_mem member))).1
  · intro ruleset member index inside
    exact (fresh.takes.between (List.mem_append_right _ (Ruleset.mem_indexesAll member index inside))).1

theorem endStatement_few {file : String} {pending : Pending} {start stop : Numbering} {add : Block → Block}
    (ran : endStatement file pending start = .ok (add, stop)) : (add ⟨[], [], []⟩).declarations.length ≤ 1 := by
  rcases pending with _ | ⟨name, items, line⟩ | ⟨items, line⟩
  · obtain ⟨rfl, -⟩ := pure_ok ran
    simp
  · obtain ⟨entry, middle, -, ran⟩ := bind_ok ran
    obtain ⟨rfl, -⟩ := pure_ok ran
    simp
  · obtain ⟨declaration, middle, -, ran⟩ := bind_ok ran
    obtain ⟨rfl, -⟩ := pure_ok ran
    simp

theorem InOrder.nothing : InOrder ⟨[], [], []⟩ := ⟨.nil, .nil, by simp⟩

theorem InOrder.addStatement {file : String} {pending : Pending} {start middle stop : Numbering} {add : Block → Block}
    {block : Block} (ends : endStatement file pending start = .ok (add, middle)) (fresh : Fresh middle stop block)
    (inOrder : InOrder block) : InOrder (add block) := by
  obtain ⟨declarations, numbered, adds⟩ := endStatement_numbered ends
  have few := endStatement_few ends
  rw [(adds _).1, List.append_nil] at few
  refine ⟨?_, by rw [(adds block).2]; exact inOrder.rulesets, by rw [(adds block).2]; exact inOrder.bodies⟩
  rw [(adds block).1, List.pairwise_append]
  refine ⟨?_, inOrder.declarations, fun a isFirst b isLater => ?_⟩
  · rcases declarations with _ | ⟨only, _ | ⟨second, others⟩⟩
    · exact .nil
    · exact List.pairwise_singleton _ _
    · simp at few
  · have before := (numbered.takes.between (List.mem_map_of_mem isFirst)).2
    exact Nat.lt_of_lt_of_le before (fresh.between.1 b isLater)

theorem InOrder.addRuleset {start middle last stop : Numbering} {selectors : List WrittenSelector} {inner after : Block}
    {place : Place} (takes : Takes start.nextIndex middle.nextIndex (selectors.map WrittenSelector.index))
    (body : Fresh middle last inner) (rest : Fresh last stop after) (inBody : InOrder inner) (inRest : InOrder after) :
    InOrder ⟨inner.bindings ++ after.bindings, after.declarations,
      .mk selectors inner.declarations inner.rulesets place :: after.rulesets⟩ where
  declarations := inRest.declarations
  rulesets := by
    refine List.pairwise_cons.mpr ⟨fun other isLater i inside j inOther => ?_, inRest.rulesets⟩
    have taken := takes.append body.takes
    rw [← List.append_assoc] at taken
    exact Nat.lt_of_lt_of_le (taken.between inside).2 (rest.between.2 other isLater j inOther)
  bodies := List.forall_mem_cons.mpr ⟨inBody.declarations, inRest.bodies⟩

theorem readBlock_inOrder {file : String} {pending : Pending} {items : List Lexeme} {start stop : Numbering} {block : Block}
    (ran : readBlock file pending items start = .ok (block, stop)) : InOrder block := by
  fun_induction readBlock file pending items generalizing start stop block with
  | case1 pending =>
    obtain ⟨add, middle, ends, ran⟩ := bind_ok ran
    obtain ⟨rfl, rfl⟩ := pure_ok ran
    exact InOrder.nothing.addStatement ends (Fresh.nothing _)
  | case2 pending body line rest head firstLine found ihBody ihRest =>
    obtain ⟨selectors, middle, readHead, ran⟩ := bind_ok ran
    obtain ⟨inner, last, readBody, ran⟩ := bind_ok ran
    obtain ⟨after, final, readRest, ran⟩ := bind_ok ran
    obtain ⟨rfl, rfl⟩ := pure_ok ran
    exact InOrder.addRuleset (readSelectors_takes readHead).1 (readBlock_fresh readBody) (readBlock_fresh readRest)
      (ihBody readBody) (ihRest readRest)
  | case3 pending body line rest found ih => exact ih ran
  | case4 pending item rest notGroup isSemicolon ih =>
    obtain ⟨add, middle, ends, ran⟩ := bind_ok ran
    obtain ⟨after, last, readRest, ran⟩ := bind_ok ran
    obtain ⟨rfl, rfl⟩ := pure_ok ran
    exact (ih readRest).addStatement ends (readBlock_fresh readRest)
  | case5 pending item rest notGroup notSemicolon ih => exact ih ran

end Reader

namespace Sheet

theorem read_inOrder {file css : String} {start stop : Reader.Numbering} {sheet : Sheet}
    (ran : Sheet.read file css start = .ok (sheet, stop)) : Reader.InOrder ⟨sheet.bindings, [], sheet.rulesets⟩ := by
  change Reader.readSheet file css start = .ok (sheet, stop) at ran
  unfold Reader.readSheet at ran
  obtain ⟨block, middle, readBlock, ran⟩ := Reader.bind_ok ran
  have inOrder := Reader.readBlock_inOrder readBlock
  obtain ⟨bindings, declarations, rulesets⟩ := block
  cases declarations with
  | nil =>
    obtain ⟨rfl, rfl⟩ := Reader.pure_ok ran
    exact inOrder
  | cons loose rest => cases ran

end Sheet
end MapStyle
