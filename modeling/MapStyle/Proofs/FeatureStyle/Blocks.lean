import Mathlib
import MapStyle.Proofs.FeatureStyle.Unconditional
import MapStyle.Proofs.Sheet.Order
import MapStyle.StyledMap.Stylesheets
/-!
Rulesets that share one selector. A later ruleset is more specific than an earlier one, so that the last that declares a
property decides on it; within a ruleset, the first declaration of the property does.
-/
namespace MapStyle

namespace Specificity

theorem atLeast_iff {a b : Specificity} : a.atLeast b ↔ b.ids < a.ids ∨ b.ids = a.ids ∧ (b.classes < a.classes ∨
    b.classes = a.classes ∧ (b.conditions < a.conditions ∨ b.conditions = a.conditions ∧ b.index ≤ a.index)) := by
  simp only [atLeast, fields, fieldsLe, Bool.or_eq_true, Bool.and_eq_true, decide_eq_true_eq, beq_iff_eq, and_true,
    Nat.le_iff_lt_or_eq]

theorem atLeast_trans (a b c : Specificity) (first : a.atLeast b) (second : b.atLeast c) : a.atLeast c := by
  rw [atLeast_iff] at first second ⊢
  omega

theorem atLeast_total (a b : Specificity) : a.atLeast b || b.atLeast a := by
  rw [Bool.or_eq_true, atLeast_iff, atLeast_iff]
  omega

end Specificity

/-- Definitions that are more specific from one to the next stand in cascade order backwards. -/
theorem Definition.cascade_eq_reverse {definitions : List Definition}
    (increasing : definitions.Pairwise fun a b => b.specificity.atLeast a.specificity ∧ ¬ a.specificity.atLeast b.specificity) :
    cascade definitions = definitions.reverse := by
  have sorted : (cascade definitions).Pairwise fun a b => a.specificity.atLeast b.specificity :=
    List.pairwise_mergeSort (fun a b c => Specificity.atLeast_trans a.specificity b.specificity c.specificity)
      (fun a b => Specificity.atLeast_total a.specificity b.specificity) definitions
  have backwards := List.pairwise_reverse.mpr (increasing.imp And.left)
  have permuted := (List.mergeSort_perm definitions fun a b => a.specificity.atLeast b.specificity).trans
    definitions.reverse_perm.symm
  -- of two definitions one is more specific, so that sorting leaves no choice
  have different : definitions.Pairwise fun a b =>
      ¬ (a.specificity.atLeast b.specificity ∧ b.specificity.atLeast a.specificity) :=
    increasing.imp fun less both => less.2 both.1
  refine List.Perm.eq_of_pairwise (fun a b inSorted inReverse first second => ?_) sorted backwards permuted
  have symm : Std.Symm fun a b : Definition => ¬ (a.specificity.atLeast b.specificity ∧ b.specificity.atLeast a.specificity) :=
    ⟨fun a b excluded both => excluded both.symm⟩
  by_contra apart
  refine different.forall ?_ (List.mem_reverse.mp inReverse) apart ⟨first, second⟩
  exact List.mem_reverse.mp (permuted.mem_iff.mp inSorted)

namespace Declaration

theorem kept_iff {declaration : Declaration} {front back : List Declaration} (new : declaration ∉ front) :
    declaration ∈ (front ++ declaration :: back).foldl keepFirst [] ↔ ∀ other ∈ front, ¬ declaration.rivals other := by
  rw [List.foldl_append]
  constructor
  · intro member other inFront rival
    rcases mem_foldl_keepFirst member with isKept | ⟨-, alone⟩
    · exact new (mem_of_mem_kept isKept)
    · obtain ⟨first, isFirst, same⟩ := List.any_eq_true.mp (foldl_keepFirst_any [] inFront)
      exact List.any_eq_false.mp alone first isFirst (rivals_trans rival same)
  · intro alone
    have unbeaten : (front.foldl keepFirst []).any declaration.rivals = false :=
      List.any_eq_false.mpr fun other isKept => alone other (mem_of_mem_kept isKept)
    rw [List.foldl_cons, keepFirst, unbeaten, if_neg Bool.false_ne_true]
    obtain ⟨later, same⟩ := foldl_keepFirst_prefix (front.foldl keepFirst [] ++ [declaration]) back
    rw [← same]
    simp

end Declaration

namespace Ruleset
variable {target : String → Option Target} {layer : String} {ruleset : Ruleset} {rulesets : List Ruleset} {scope : Scope}

/-- A ruleset with the one selector `#layer` and nothing nested, whose declarations are for symbolizers. -/
structure IsBlock (target : String → Option Target) (layer : String) (ruleset : Ruleset) : Prop where
  selector : ∃ written, ruleset.selectors = [written] ∧ written.parts = [.element (.id layer)]
  flat : ruleset.children = []
  owned : ∀ declaration ∈ ruleset.declarations, (declaration.owner? target).isSome

/-- The source index of its first declaration, or that of its selector where it has none. -/
def leadIndex (ruleset : Ruleset) : Nat :=
  ((ruleset.declarations.head?.map Declaration.index).or (ruleset.selectors.head?.map WrittenSelector.index)).getD 0

def block (layer : String) (ruleset : Ruleset) : Definition where
  elements := [.id layer]
  filters := FilterSet.empty
  zoom := Zoom.all
  attachment := defaultAttachment
  specificity := ⟨1, 0, 0, ruleset.leadIndex⟩
  place := (ruleset.selectors.head?.map WrittenSelector.place).getD ruleset.place
  declarations := ruleset.declarations

theorem leadIndex_mem (isBlock : ruleset.IsBlock target layer) : ruleset.leadIndex ∈ ruleset.indexes := by
  obtain ⟨written, isWritten, -⟩ := isBlock.selector
  rw [indexes_eq, leadIndex, isWritten]
  cases ruleset.declarations <;> simp

theorem restrict_all {declarations : List Declaration} (isAll : ∀ declaration ∈ declarations, declaration.zoom = Zoom.all) :
    declarations.map (fun declaration => declaration.restrict Zoom.all) = declarations := by
  have whole : Zoom.all.inter Zoom.all = Zoom.all := by decide
  have same : ∀ declaration ∈ declarations, declaration.restrict Zoom.all = declaration := by
    intro declaration member
    obtain ⟨property, instanceName, value, index, place, zoom⟩ := declaration
    obtain rfl : zoom = Zoom.all := isAll _ member
    exact congrArg (Declaration.mk property instanceName value index place) whole
  rw [List.map_congr_left same, List.map_id']

theorem flatten_block (isBlock : ruleset.IsBlock target layer)
    (isAll : ∀ declaration ∈ ruleset.declarations, declaration.zoom = Zoom.all) :
    Nesting.flatten scope none ruleset = .ok [ruleset.block layer] := by
  obtain ⟨selectors, declarations, children, place⟩ := ruleset
  obtain ⟨⟨⟨parts, index, selectorPlace⟩, isWritten, isId⟩, flat, -⟩ := isBlock
  obtain rfl : selectors = [⟨parts, index, selectorPlace⟩] := isWritten
  obtain rfl : parts = [.element (.id layer)] := isId
  obtain rfl : children = [] := flat
  have unrestricted : declarations.map (fun declaration => declaration.restrict Zoom.all) = declarations := restrict_all isAll
  have own : Nesting.ownDefinitions [⟨[.id layer], FilterSet.empty, Zoom.all, none, 0, index, selectorPlace⟩] declarations =
      [block layer (.mk [⟨[.element (.id layer)], index, selectorPlace⟩] declarations [] place)] := by
    simp only [Nesting.ownDefinitions, List.map_cons, List.map_nil, Definition.ofSelector, unrestricted]
    cases declarations <;> rfl
  rw [Nesting.flatten]
  exact congrArg Except.ok own

theorem flattenAll_blocks (blocks : ∀ ruleset ∈ rulesets, ruleset.IsBlock target layer)
    (isAll : ∀ ruleset ∈ rulesets, ∀ declaration ∈ ruleset.declarations, declaration.zoom = Zoom.all) :
    Nesting.flattenAll scope none rulesets = .ok (rulesets.map (block layer)) := by
  induction rulesets with
  | nil => rfl
  | cons ruleset rest ih =>
    obtain ⟨here, others⟩ := List.forall_mem_cons.mp blocks
    obtain ⟨allHere, allOthers⟩ := List.forall_mem_cons.mp isAll
    rw [Nesting.flattenAll, flatten_block here allHere, ih others allOthers]
    rfl

theorem cascade_blocks (blocks : ∀ ruleset ∈ rulesets, ruleset.IsBlock target layer)
    (inOrder : rulesets.Pairwise Reader.Precedes) :
    Definition.cascade (rulesets.map (block layer)) = rulesets.reverse.map (block layer) := by
  rw [List.map_reverse]
  refine Definition.cascade_eq_reverse (List.pairwise_map.mpr (inOrder.imp_of_mem fun {a b} isFirst isSecond before => ?_))
  have less := before _ (leadIndex_mem (blocks a isFirst)) _ (leadIndex_mem (blocks b isSecond))
  simp only [Specificity.atLeast_iff, block, Nat.lt_irrefl, false_or, true_and, not_le]
  exact ⟨Nat.le_of_lt less, less⟩

theorem applicable_blocks (classes : List String) :
    Definition.applicable (rulesets.map (block layer)) layer classes = rulesets.map (block layer) := by
  refine List.filter_eq_self.mpr fun definition member => ?_
  obtain ⟨ruleset, -, rfl⟩ := List.mem_map.mp member
  simp [block, Definition.appliesTo, Element.appliesTo]

theorem blocks_plain (blocks : ∀ ruleset ∈ rulesets, ruleset.IsBlock target layer)
    (isAll : ∀ ruleset ∈ rulesets, ∀ declaration ∈ ruleset.declarations, declaration.zoom = Zoom.all) :
    ∀ definition ∈ rulesets.reverse.map (block layer), definition.IsPlain target := by
  intro definition member
  obtain ⟨ruleset, isReversed, rfl⟩ := List.mem_map.mp member
  have isRuleset := List.mem_reverse.mp isReversed
  exact ⟨rfl, rfl, fun declaration declares =>
    ⟨isAll ruleset isRuleset declaration declares, (blocks ruleset isRuleset).owned declaration declares⟩⟩

end Ruleset

namespace Stylesheets

theorem load_blocks {target : String → Option Target} {layer name css : String} {sheet : Sheet} {stop : Reader.Numbering}
    (read : Sheet.read name css ⟨0, 0⟩ = .ok (sheet, stop))
    (blocks : ∀ ruleset ∈ sheet.rulesets, ruleset.IsBlock target layer) :
    (load [⟨name, css⟩]).definitions = sheet.rulesets.reverse.map (Ruleset.block layer) := by
  have one : Stylesheets.read [⟨name, css⟩] = [sheet] := by simp [Stylesheets.read, readFrom, read]
  have isAll : ∀ ruleset ∈ sheet.rulesets, ∀ declaration ∈ ruleset.declarations, declaration.zoom = Zoom.all :=
    fun ruleset member => (Sheet.read_fresh read).2 (.here member)
  rw [load, one, ← Ruleset.cascade_blocks blocks (Sheet.read_inOrder read).rulesets]
  simp [definitionsOf, Sheet.definitions, Ruleset.flattenAll_blocks blocks isAll, Except.toOption]

end Stylesheets

theorem Sheet.read_increasing {name css : String} {start stop : Reader.Numbering} {sheet : Sheet}
    (read : Sheet.read name css start = .ok (sheet, stop)) :
    (sheet.rulesets.flatMap Ruleset.declarations).Pairwise fun a b => a.index < b.index := by
  have inOrder := Sheet.read_inOrder read
  refine List.pairwise_flatMap.mpr ⟨inOrder.bodies, inOrder.rulesets.imp fun before a isFirst b isSecond => ?_⟩
  exact before _ (Ruleset.index_mem isFirst) _ (Ruleset.index_mem isSecond)

namespace Group
open Declaration
variable {target : String → Option Target} {declarations : List Declaration} {declaration : Declaration}

def Uses (groups : List Group) (declaration : Declaration) : Prop := ∃ group ∈ groups, declaration ∈ group.declarations

theorem uses_gather (owned : (declaration.owner? target).isSome) :
    Uses (gather target declarations) declaration ↔ declaration ∈ declarations := by
  constructor
  · rintro ⟨group, isGroup, declares⟩
    obtain ⟨owner, -, rfl⟩ := List.mem_map.mp isGroup
    exact (List.mem_filter.mp declares).1
  · intro member
    obtain ⟨owner, isOwner⟩ := Option.isSome_iff_exists.mp owned
    refine ⟨_, List.mem_map_of_mem (List.mem_eraseDups.mpr (List.mem_filterMap.mpr ⟨declaration, member, isOwner⟩)), ?_⟩
    exact List.mem_filter.mpr ⟨member, by simp [isOwner]⟩

theorem drawnAt_plain (plain : ∀ declaration ∈ declarations, declaration.IsPlain target) :
    drawnAt target 0 declarations = gather target (declarations.foldl keepFirst []) := by
  rw [drawnAt, winners, List.filter_eq_self.mpr fun declaration member => (plain declaration member).drawsAt]

theorem nodup_of_increasing {rulesets : List Ruleset}
    (increasing : (rulesets.flatMap Ruleset.declarations).Pairwise fun a b => a.index < b.index) :
    (rulesets.reverse.flatMap Ruleset.declarations).Nodup := by
  refine (rulesets.reverse_perm.flatMap_right Ruleset.declarations).nodup_iff.mpr (increasing.imp ?_)
  rintro a b less rfl
  exact Nat.lt_irrefl _ less

/-- Of the declarations of blocks, from the last block to the first, those are used that are the first in their block and
in no later one. -/
theorem uses_blocks {rulesets older newer : List Ruleset} {ruleset : Ruleset} {front back : List Declaration}
    (plain : ∀ declaration ∈ rulesets.reverse.flatMap Ruleset.declarations, declaration.IsPlain target)
    (increasing : (rulesets.flatMap Ruleset.declarations).Pairwise fun a b => a.index < b.index)
    (split : rulesets = older ++ ruleset :: newer) (declares : ruleset.declarations = front ++ declaration :: back) :
    Uses (drawnAt target 0 (rulesets.reverse.flatMap Ruleset.declarations)) declaration ↔
      (∀ other ∈ front, ¬ declaration.rivals other) ∧
        ∀ later ∈ newer, ∀ other ∈ later.declarations, ¬ declaration.rivals other := by
  have apart := nodup_of_increasing increasing
  have backwards : rulesets.reverse.flatMap Ruleset.declarations =
      (newer.reverse.flatMap Ruleset.declarations ++ front) ++ declaration :: (back ++ older.reverse.flatMap Ruleset.declarations) := by
    simp [split, declares]
  rw [backwards] at plain apart ⊢
  have here := plain declaration (by simp)
  have new : declaration ∉ newer.reverse.flatMap Ruleset.declarations ++ front := fun member =>
    List.disjoint_of_nodup_append apart member List.mem_cons_self
  rw [drawnAt_plain plain, uses_gather here.owned, kept_iff new, List.forall_mem_append, and_comm, List.forall_mem_flatMap]
  simp only [List.mem_reverse]

/-- A declaration that has no later rival is the first of its block without a later one if it has no rival in its block. -/
theorem alone_iff_of_last {older newer : List Ruleset} {ruleset : Ruleset} {front back : List Declaration}
    (increasing : ((older ++ ruleset :: newer).flatMap Ruleset.declarations).Pairwise fun a b => a.index < b.index)
    (declares : ruleset.declarations = front ++ declaration :: back)
    (last : ∀ other ∈ (older ++ ruleset :: newer).flatMap Ruleset.declarations, other.rivals declaration →
      other.index ≤ declaration.index) :
    ((∀ other ∈ front, ¬ declaration.rivals other) ∧ ∀ later ∈ newer, ∀ other ∈ later.declarations, ¬ declaration.rivals other) ↔
      ∀ other ∈ ruleset.declarations, other.rivals declaration → other = declaration := by
  simp only [List.flatMap_append, List.flatMap_cons, declares] at increasing last ⊢
  obtain ⟨here, -, across⟩ := List.pairwise_append.mp (List.pairwise_append.mp increasing).2.1
  obtain ⟨-, inBlock, inFront⟩ := List.pairwise_append.mp here
  have afterwards : ∀ other ∈ newer.flatMap Ruleset.declarations, ¬ declaration.rivals other := fun other inNewer rival => by
    have less := across declaration (by simp) other inNewer
    have := last other (by simp only [List.mem_append]; tauto) (rivals_comm.mp rival)
    omega
  constructor
  · rintro ⟨alone, -⟩ other member rival
    rcases List.mem_append.mp member with before | later
    · exact absurd (rivals_comm.mp rival) (alone other before)
    · rcases List.mem_cons.mp later with same | inBack
      · exact same
      · have less := (List.pairwise_cons.mp inBlock).1 other inBack
        have := last other (by simp only [List.mem_append, List.mem_cons]; tauto) rival
        omega
  · intro single
    refine ⟨fun other before rival => ?_, List.forall_mem_flatMap.mp afterwards⟩
    have less := inFront other before declaration List.mem_cons_self
    obtain rfl := single other (List.mem_append_left _ before) (rivals_comm.mp rival)
    exact Nat.lt_irrefl _ less

theorem uses_last {rulesets : List Ruleset} {ruleset : Ruleset}
    (plain : ∀ declaration ∈ rulesets.reverse.flatMap Ruleset.declarations, declaration.IsPlain target)
    (increasing : (rulesets.flatMap Ruleset.declarations).Pairwise fun a b => a.index < b.index)
    (isRuleset : ruleset ∈ rulesets) (declares : declaration ∈ ruleset.declarations)
    (last : ∀ other ∈ rulesets.reverse.flatMap Ruleset.declarations, other.rivals declaration → other.index ≤ declaration.index) :
    Uses (drawnAt target 0 (rulesets.reverse.flatMap Ruleset.declarations)) declaration ↔
      ∀ other ∈ ruleset.declarations, other.rivals declaration → other = declaration := by
  obtain ⟨older, newer, split⟩ := List.append_of_mem isRuleset
  obtain ⟨front, back, isDeclared⟩ := List.append_of_mem declares
  rw [uses_blocks plain increasing split isDeclared]
  have lastForwards := fun other member => last other ((rulesets.reverse_perm.flatMap_right _).mem_iff.mpr member)
  rw [split] at increasing lastForwards
  exact alone_iff_of_last increasing isDeclared lastForwards

theorem exists_unique_uses (plain : ∀ declaration ∈ declarations, declaration.IsPlain target) (member : declaration ∈ declarations) :
    ∃! used, used ∈ declarations ∧ used.rivals declaration ∧ Uses (drawnAt target 0 declarations) used := by
  have used_iff : ∀ used ∈ declarations, Uses (drawnAt target 0 declarations) used ↔ used ∈ declarations.foldl keepFirst [] := by
    intro used inside
    rw [drawnAt_plain plain, uses_gather (plain used inside).owned]
  obtain ⟨first, isKept, rival⟩ := List.any_eq_true.mp (foldl_keepFirst_any [] member)
  have inside := mem_of_mem_kept isKept
  refine ⟨first, ⟨inside, rivals_comm.mp rival, (used_iff first inside).mpr isKept⟩, ?_⟩
  rintro other ⟨isDeclared, isRival, isUsed⟩
  by_contra different
  exact (foldl_keepFirst_apart .nil).forall ((used_iff other isDeclared).mp isUsed) isKept different (rivals_trans isRival rival)

end Group

theorem Renderer.ofName_reserved (name : String) : (ofName name).target? "filter-mode" = some .style := by
  unfold ofName
  split <;> decide +kernel

namespace FeatureStyle
open Declaration

/-- Where all rulesets of a stylesheet have the selector `#layer`, the layer comes to the symbolizers of their declarations
from the last ruleset to the first, or fails as these do. For each instance and property one declaration is used, the first
of the last ruleset that declares it; so the last one of all is used only where it stands alone in its ruleset. -/
theorem ofLayer_blocks {rendererName name css layer : String} {classes : List String} {sheet : Sheet}
    {stop : Reader.Numbering} {before : Shared} (read : Sheet.read name css ⟨0, 0⟩ = .ok (sheet, stop))
    (blocks : ∀ ruleset ∈ sheet.rulesets, ruleset.IsBlock (Renderer.ofName rendererName).target? layer) :
    let sheets := Stylesheets.load [⟨name, css⟩]
    let context : Context := ⟨sheets.scope, Renderer.ofName rendererName, true⟩
    let declared := sheet.rulesets.reverse.flatMap Ruleset.declarations
    let groups := Group.drawnAt context.renderer.target? 0 declared
    ((ofLayer context layer (Definition.applicable sheets.definitions layer classes)).run context.scope before =
      match (Group.symbolizers context groups).run context.scope before with
      | (.ok symbolizers, after) => (.ok (unconditional layer declared symbolizers), after)
      | (.error error, after) => (.error error, after)) ∧
    (∀ declaration ∈ declared, ∃! used, used ∈ declared ∧ used.rivals declaration ∧ Group.Uses groups used) ∧
    (∀ older ruleset newer front declaration back, sheet.rulesets = older ++ ruleset :: newer →
      ruleset.declarations = front ++ declaration :: back →
        (Group.Uses groups declaration ↔ (∀ other ∈ front, ¬ declaration.rivals other) ∧
          ∀ later ∈ newer, ∀ other ∈ later.declarations, ¬ declaration.rivals other)) ∧
    ∀ ruleset ∈ sheet.rulesets, ∀ declaration ∈ ruleset.declarations,
      (∀ other ∈ declared, other.rivals declaration → other.index ≤ declaration.index) →
        (Group.Uses groups declaration ↔ ∀ other ∈ ruleset.declarations, other.rivals declaration → other = declaration) := by
  intro sheets context declared groups
  have isAll : ∀ ruleset ∈ sheet.rulesets, ∀ declaration ∈ ruleset.declarations, declaration.zoom = Zoom.all :=
    fun ruleset member => (Sheet.read_fresh read).2 (.here member)
  have loaded : sheets.definitions = sheet.rulesets.reverse.map (Ruleset.block layer) := Stylesheets.load_blocks read blocks
  have plain : ∀ definition ∈ sheet.rulesets.reverse.map (Ruleset.block layer),
      definition.IsPlain context.renderer.target? := Ruleset.blocks_plain blocks isAll
  have declaredPlain : ∀ declaration ∈ declared, declaration.IsPlain context.renderer.target? := by
    intro declaration member
    obtain ⟨ruleset, isRuleset, declares⟩ := List.mem_flatMap.mp member
    exact (plain _ (List.mem_map_of_mem isRuleset)).declarations declaration declares
  have increasing := Sheet.read_increasing read
  refine ⟨?_, fun declaration member => Group.exists_unique_uses declaredPlain member,
    fun older ruleset newer front declaration back => Group.uses_blocks declaredPlain increasing,
    fun ruleset isRuleset declaration declares => Group.uses_last declaredPlain increasing isRuleset declares⟩
  have separate : context.renderer.Plain := Renderer.ofName_plain rendererName
  have reserved : context.renderer.target? "filter-mode" = some .style := Renderer.ofName_reserved rendererName
  rw [loaded, Ruleset.applicable_blocks, ofLayer_plain separate reserved plain, List.flatMap_map]
  rfl

def twiceText : String := "#r{line-cap:round;line-cap:square}"

def capAt (index : Nat) (cap : String) : Declaration :=
  ⟨"line-cap", defaultInstance, ⟨index - 1, .keyword cap, ⟨"roads.mss", 1⟩⟩, index, ⟨"roads.mss", 1⟩, Zoom.all⟩

def twice : Ruleset :=
  .mk [⟨[.element (.id "r")], 0, ⟨"roads.mss", 1⟩⟩] [capAt 1 "round", capAt 2 "square"] [] ⟨"roads.mss", 1⟩

theorem read_twice : Sheet.read "roads.mss" twiceText ⟨0, 0⟩ = .ok (⟨"roads.mss", [], [twice]⟩, ⟨3, 2⟩) := by
  have lexed : Lexeme.ofChars (LineComment.strip twiceText.toList) =
      [.leaf (.hash "r") 1, .group .curly [.leaf (.word "line-cap") 1, .leaf .colon 1, .leaf (.word "round") 1,
        .leaf .semicolon 1, .leaf (.word "line-cap") 1, .leaf .colon 1, .leaf (.word "square") 1] 1] := by cbv
  change Reader.readSheet _ _ _ = _
  unfold Reader.readSheet
  rw [lexed]
  cbv

theorem ofLayer_blocks_twice :
    let context : Context := ⟨(Stylesheets.load [⟨"roads.mss", twiceText⟩]).scope, Renderer.ofName "mapnik", true⟩
    let declared := [twice].reverse.flatMap Ruleset.declarations
    let groups := Group.drawnAt context.renderer.target? 0 declared
    (∀ ruleset ∈ [twice], ruleset.IsBlock context.renderer.target? "r") ∧
    Group.Uses groups (capAt 1 "round") ∧ ¬ Group.Uses groups (capAt 2 "square") ∧
    (ofLayer context "r" (Definition.applicable (Stylesheets.load [⟨"roads.mss", twiceText⟩]).definitions "r" [])).run
        context.scope Shared.empty =
      match (Group.symbolizers context groups).run context.scope Shared.empty with
      | (.ok symbolizers, after) => (.ok (unconditional "r" declared symbolizers), after)
      | (.error error, after) => (.error error, after) := by
  intro context declared groups
  have blocks : ∀ ruleset ∈ [twice], ruleset.IsBlock (Renderer.ofName "mapnik").target? "r" := by
    refine List.forall_mem_singleton.mpr ⟨⟨_, rfl, rfl⟩, rfl, ?_⟩
    decide +kernel
  obtain ⟨ran, -, used, -⟩ := ofLayer_blocks read_twice blocks
  refine ⟨blocks, ?_, ?_, ran⟩
  · exact (used [] twice [] [] (capAt 1 "round") [capAt 2 "square"] rfl rfl).mpr ⟨by simp, by simp⟩
  · intro isUsed
    obtain ⟨alone, -⟩ := (used [] twice [] [capAt 1 "round"] (capAt 2 "square") [] rfl rfl).mp isUsed
    exact alone _ (List.mem_singleton_self _) (by decide)

end FeatureStyle
end MapStyle
