import Mathlib.Data.List.Nodup
import MapStyle.Sheet.Basic
/-!
Chains of nested rulesets, from the top of a sheet inwards, and the source indexes that a tree of rulesets holds. Where no
index stands twice, the index of a declaration tells the chain that leads to it.
-/
namespace MapStyle

/-- `outer` are the rulesets around `last`, the outermost first, and the first of all stands in `rulesets`. -/
inductive Chain : List Ruleset → List Ruleset → Ruleset → Prop where
  | here {rulesets : List Ruleset} {last : Ruleset} (member : last ∈ rulesets) : Chain rulesets [] last
  | under {rulesets outer : List Ruleset} {first last : Ruleset} (member : first ∈ rulesets)
      (inside : Chain first.children outer last) : Chain rulesets (first :: outer) last

namespace Ruleset

mutual
/-- The source indexes of the selectors and declarations of a ruleset, nested ones included. -/
def indexes : Ruleset → List Nat
  | mk selectors declarations children _ =>
    selectors.map WrittenSelector.index ++ declarations.map Declaration.index ++ indexesAll children

def indexesAll : List Ruleset → List Nat
  | [] => []
  | ruleset :: rest => indexes ruleset ++ indexesAll rest
end

mutual
/-- The values of the declarations of a ruleset, nested ones included. -/
def values : Ruleset → List Expression
  | mk _ declarations children _ => declarations.map Declaration.value ++ valuesAll children

def valuesAll : List Ruleset → List Expression
  | [] => []
  | ruleset :: rest => values ruleset ++ valuesAll rest
end

theorem indexes_eq (ruleset : Ruleset) : ruleset.indexes = ruleset.selectors.map WrittenSelector.index ++
    ruleset.declarations.map Declaration.index ++ indexesAll ruleset.children := by
  cases ruleset
  rfl

theorem mem_indexesAll {ruleset : Ruleset} {rulesets : List Ruleset} (member : ruleset ∈ rulesets) :
    ∀ index ∈ ruleset.indexes, index ∈ indexesAll rulesets := by
  induction rulesets with
  | nil => simp at member
  | cons head rest ih =>
    intro index inside
    rw [indexesAll, List.mem_append]
    rcases List.mem_cons.mp member with rfl | inRest
    · exact Or.inl inside
    · exact Or.inr (ih inRest index inside)

theorem eq_of_index {rulesets : List Ruleset} (apart : (indexesAll rulesets).Nodup) {a b : Ruleset} (left : a ∈ rulesets)
    (right : b ∈ rulesets) {index : Nat} (inLeft : index ∈ a.indexes) (inRight : index ∈ b.indexes) : a = b := by
  induction rulesets with
  | nil => simp at left
  | cons head rest ih =>
    rw [indexesAll, List.nodup_append'] at apart
    obtain ⟨-, apartRest, separate⟩ := apart
    rcases List.mem_cons.mp left with rfl | leftRest <;> rcases List.mem_cons.mp right with rfl | rightRest
    · rfl
    · exact absurd (mem_indexesAll rightRest index inRight) (separate inLeft)
    · exact absurd (mem_indexesAll leftRest index inLeft) (separate inRight)
    · exact ih apartRest leftRest rightRest

theorem nodup_indexes {ruleset : Ruleset} {rulesets : List Ruleset} (member : ruleset ∈ rulesets)
    (apart : (indexesAll rulesets).Nodup) : ruleset.indexes.Nodup := by
  induction rulesets with
  | nil => simp at member
  | cons head rest ih =>
    rw [indexesAll, List.nodup_append'] at apart
    rcases List.mem_cons.mp member with rfl | inRest
    · exact apart.1
    · exact ih inRest apart.2.1

theorem index_mem {ruleset : Ruleset} {declaration : Declaration} (declares : declaration ∈ ruleset.declarations) :
    declaration.index ∈ ruleset.indexes := by
  rw [indexes_eq]
  simp only [List.mem_append, List.mem_map]
  exact Or.inl (Or.inr ⟨declaration, declares, rfl⟩)

theorem index_mem_of_child {ruleset : Ruleset} {index : Nat} (inside : index ∈ indexesAll ruleset.children) :
    index ∈ ruleset.indexes := by
  rw [indexes_eq]
  exact List.mem_append_right _ inside

theorem index_apart {ruleset : Ruleset} (apart : ruleset.indexes.Nodup) {declaration : Declaration}
    (declares : declaration ∈ ruleset.declarations) : declaration.index ∉ indexesAll ruleset.children ∧
      ∀ other ∈ ruleset.declarations, declaration.index = other.index → declaration = other := by
  rw [indexes_eq, List.nodup_append'] at apart
  obtain ⟨own, -, separate⟩ := apart
  have direct : (ruleset.declarations.map Declaration.index).Nodup := (List.nodup_append'.mp own).2.1
  refine ⟨fun nested => separate (List.mem_append_right _ (List.mem_map_of_mem declares)) nested, ?_⟩
  exact fun other isOther same => List.inj_on_of_nodup_map direct declares isOther same

theorem mem_valuesAll {ruleset : Ruleset} {rulesets : List Ruleset} (member : ruleset ∈ rulesets) :
    ∀ value ∈ ruleset.values, value ∈ valuesAll rulesets := by
  induction rulesets with
  | nil => simp at member
  | cons head rest ih =>
    intro value inside
    rw [valuesAll, List.mem_append]
    rcases List.mem_cons.mp member with rfl | inRest
    · exact Or.inl inside
    · exact Or.inr (ih inRest value inside)

theorem values_eq (ruleset : Ruleset) :
    ruleset.values = ruleset.declarations.map Declaration.value ++ valuesAll ruleset.children := by
  cases ruleset
  rfl

end Ruleset

namespace Chain

theorem mono {rulesets more outer : List Ruleset} {last : Ruleset} (chain : Chain rulesets outer last)
    (inside : ∀ ruleset ∈ rulesets, ruleset ∈ more) : Chain more outer last := by
  cases chain with
  | here member => exact .here (inside _ member)
  | under member within => exact .under (inside _ member) within

theorem exists_of_mem {rulesets outer : List Ruleset} {last ruleset : Ruleset} (chain : Chain rulesets outer last)
    (member : ruleset ∈ outer ++ [last]) : ∃ around, Chain rulesets around ruleset := by
  induction chain with
  | here inside => exact ⟨[], by rw [List.mem_singleton.mp member]; exact .here inside⟩
  | under inside within ih =>
    rcases List.mem_cons.mp member with rfl | deeper
    · exact ⟨[], .here inside⟩
    · obtain ⟨around, chainAround⟩ := ih deeper
      exact ⟨_, .under inside chainAround⟩

theorem mem_indexesAll {rulesets outer : List Ruleset} {last : Ruleset} (chain : Chain rulesets outer last)
    {declaration : Declaration} (declares : declaration ∈ last.declarations) :
    declaration.index ∈ Ruleset.indexesAll rulesets := by
  induction chain with
  | here member => exact Ruleset.mem_indexesAll member _ (Ruleset.index_mem declares)
  | under member inside ih => exact Ruleset.mem_indexesAll member _ (Ruleset.index_mem_of_child (ih declares))

theorem mem_valuesAll {rulesets outer : List Ruleset} {last : Ruleset} (chain : Chain rulesets outer last)
    {declaration : Declaration} (declares : declaration ∈ last.declarations) :
    declaration.value ∈ Ruleset.valuesAll rulesets := by
  induction chain with
  | here member =>
    apply Ruleset.mem_valuesAll member
    rw [Ruleset.values_eq]
    exact List.mem_append_left _ (List.mem_map_of_mem declares)
  | under member inside ih =>
    apply Ruleset.mem_valuesAll member
    rw [Ruleset.values_eq]
    exact List.mem_append_right _ (ih declares)

theorem unique {rulesets outer outer' : List Ruleset} {last last' : Ruleset} (apart : (Ruleset.indexesAll rulesets).Nodup)
    (chain : Chain rulesets outer last) (again : Chain rulesets outer' last') {a b : Declaration}
    (declares : a ∈ last.declarations) (declaresAgain : b ∈ last'.declarations) (same : a.index = b.index) :
    outer = outer' ∧ last = last' ∧ a = b := by
  induction chain generalizing outer' with
  | here member =>
    have own := Ruleset.index_mem declares
    have direct := Ruleset.index_apart (Ruleset.nodup_indexes member apart) declares
    cases again with
    | here memberAgain =>
      obtain rfl := Ruleset.eq_of_index apart member memberAgain own (same ▸ Ruleset.index_mem declaresAgain)
      exact ⟨rfl, rfl, direct.2 b declaresAgain same⟩
    | under memberAgain inside =>
      have nested := inside.mem_indexesAll declaresAgain
      obtain rfl := Ruleset.eq_of_index apart member memberAgain own (same ▸ Ruleset.index_mem_of_child nested)
      -- the index is that of a direct declaration, so that no nested one has it
      exact absurd (same ▸ nested) direct.1
  | under member inside ih =>
    have nested := inside.mem_indexesAll declares
    have own := Ruleset.index_mem_of_child nested
    cases again with
    | here memberAgain =>
      obtain rfl := Ruleset.eq_of_index apart member memberAgain own (same ▸ Ruleset.index_mem declaresAgain)
      have direct := Ruleset.index_apart (Ruleset.nodup_indexes member apart) declaresAgain
      exact absurd (same ▸ nested) direct.1
    | under memberAgain insideAgain =>
      have nestedAgain := insideAgain.mem_indexesAll declaresAgain
      obtain rfl := Ruleset.eq_of_index apart member memberAgain own (same ▸ Ruleset.index_mem_of_child nestedAgain)
      -- both chains go through the ruleset that holds the index, and on below it
      have whole := Ruleset.nodup_indexes member apart
      rw [Ruleset.indexes_eq, List.nodup_append'] at whole
      obtain ⟨rfl, rest⟩ := ih whole.2.1 insideAgain declares
      exact ⟨rfl, rest⟩

end Chain
end MapStyle
