import Mathlib
import MapStyle.Proofs.Number.Spelling
import MapStyle.Proofs.Text.Parts
import MapStyle.Proofs.Value.Filling
import MapStyle.Renderer.Mapnik.Basic
import MapStyle.Sheet.Reader
/-!
Lists of image filters. The items of a list and the arguments of a call are joined with the same comma, and the text is split
again by counting the parentheses that are open. That finds the items as they were, since a call closes what it opens and
its arguments stand within.
-/
namespace MapStyle
namespace Text

section item
variable {low : Nat} {text more : List Char}

/-- Where at least `low` parentheses are open, the text stays within one item and leaves open what was open. -/
def StaysInItem (low : Nat) (text : List Char) : Prop :=
  ∀ depth item rest, low ≤ depth → topLevelFrom depth item (text ++ rest) = topLevelFrom depth (text.reverse ++ item) rest

def Unbracketed (text : List Char) : Prop := '(' ∉ text ∧ ')' ∉ text

instance (text : List Char) : Decidable (Unbracketed text) := inferInstanceAs (Decidable ('(' ∉ text ∧ ')' ∉ text))

theorem StaysInItem.nil : StaysInItem low [] := fun _ _ _ _ => rfl

theorem StaysInItem.append (first : StaysInItem low text) (second : StaysInItem low more) :
    StaysInItem low (text ++ more) := by
  intro depth item rest isLow
  rw [List.append_assoc, first depth item _ isLow, second depth _ rest isLow, List.reverse_append, List.append_assoc]

theorem Unbracketed.staysInItem (plain : Unbracketed text) (commas : low = 0 → ',' ∉ text) : StaysInItem low text := by
  intro depth item rest isLow
  induction text generalizing item with
  | nil => rfl
  | cons c text ih =>
    obtain ⟨noOpening, noOpenings⟩ := List.ne_and_not_mem_of_not_mem_cons plain.1
    obtain ⟨noClosing, noClosings⟩ := List.ne_and_not_mem_of_not_mem_cons plain.2
    have commasRest : low = 0 → ',' ∉ text := fun outside inside => commas outside (List.mem_cons_of_mem c inside)
    have noSeparator : ¬ (c = ',' ∧ depth = 0) := by
      rintro ⟨rfl, rfl⟩
      exact commas (Nat.le_zero.mp isLow) List.mem_cons_self
    have step : topLevelFrom depth item (c :: (text ++ rest)) = topLevelFrom depth (c :: item) (text ++ rest) := by
      rw [topLevelFrom, if_neg (by simpa using noSeparator), if_neg (by simpa using noOpening.symm),
        if_neg (by simpa using noClosing.symm)]
    rw [List.cons_append, step, ih ⟨noOpenings, noClosings⟩ commasRest, List.reverse_cons, List.append_assoc, List.singleton_append]

theorem StaysInItem.parenthesized (inside : StaysInItem 1 text) : StaysInItem low ('(' :: (text ++ [')'])) := by
  intro depth item rest _
  have opened : topLevelFrom depth item ('(' :: (text ++ ')' :: rest)) =
      topLevelFrom (depth + 1) ('(' :: item) (text ++ ')' :: rest) := by simp [topLevelFrom]
  have closed (item : List Char) : topLevelFrom (depth + 1) item (')' :: rest) = topLevelFrom depth (')' :: item) rest := by
    simp [topLevelFrom]
  simp only [List.cons_append, List.append_assoc, List.nil_append]
  rw [opened, inside _ _ _ (Nat.le_add_left 1 depth), closed]
  simp

theorem StaysInItem.joined {texts : List (List Char)} (each : ∀ text ∈ texts, StaysInItem 1 text) :
    StaysInItem 1 ([',', ' '].intercalate texts) := by
  have comma : StaysInItem 1 [',', ' '] := Unbracketed.staysInItem (by decide) (by decide)
  induction texts with
  | nil => exact .nil
  | cons text rest ih =>
    obtain ⟨stays, others⟩ := List.forall_mem_cons.mp each
    cases rest with
    | nil => rwa [List.intercalate_singleton]
    | cons next rest =>
      rw [List.intercalate_cons_cons]
      exact (stays.append comma).append (ih others)

theorem stripBoth_ne_nil {p : Char → Bool} (visible : ∃ c ∈ text, p c = false) : stripBoth p text ≠ [] := by
  obtain ⟨c, member, isVisible⟩ := visible
  have kept : c ∈ stripBoth p text := (mem_stripBoth_or member).resolve_left (by simp [isVisible])
  exact List.ne_nil_of_mem kept

end item
end Text

namespace Mapnik
open Text

/-- What can stand between the parentheses of an image filter. A word is plain: with an escape it could hold a parenthesis,
which would be counted. -/
inductive FilterArgument : Value → Prop where
  | keyword {word : String} (plain : Unbracketed word.toList) : FilterArgument (.keyword word)
  | number {value : Number} {unit : Option String} (plain : ∀ suffix ∈ unit, Unbracketed suffix.toList) :
      FilterArgument (.number value unit)
  | percentage {value : Number} : FilterArgument (.percentage value)
  | color {text : String} (plain : Unbracketed text.toList) : FilterArgument (.color text)
  | call {name : String} {args : List Value} (plain : Unbracketed name.toList) (each : ∀ arg ∈ args, FilterArgument arg) :
      FilterArgument (.call name args)

/-- An image filter: a plain keyword, which has no comma either and is not blank, or a call. -/
inductive FilterTerm : Value → Prop where
  | keyword {word : String} (plain : Unbracketed word.toList) (noComma : ',' ∉ word.toList)
      (visible : ∃ c ∈ word.toList, isBlank c = false) : FilterTerm (.keyword word)
  | call {name : String} {args : List Value} (plain : Unbracketed name.toList) (noComma : ',' ∉ name.toList)
      (each : ∀ arg ∈ args, FilterArgument arg) : FilterTerm (.call name args)

section render
variable {expand : String → Except StyleError String} {value : Value}

theorem unbracketed_number (number : Number) : Unbracketed number.text.toList := by
  have written := Number.text_chars number
  exact ⟨fun opening => absurd (written _ opening) (by decide), fun closing => absurd (written _ closing) (by decide)⟩

theorem render_call {low : Nat} {name : String} {args : List Value} (named : StaysInItem low name.toList)
    (each : ∀ arg ∈ args, ∃ text, arg.render expand = .ok text ∧ StaysInItem 1 text.toList) :
    ∃ text, (Value.call name args).render expand = .ok text ∧ StaysInItem low text.toList ∧ '(' ∈ text.toList := by
  obtain ⟨texts, rendered, -, inside⟩ := Value.renderAll_ok each
  have chars : (name ++ "(" ++ String.intercalate ", " texts ++ ")").toList =
      name.toList ++ '(' :: ([',', ' '].intercalate (texts.map String.toList) ++ [')']) := by
    simp [String.toList_intercalate]
  refine ⟨name ++ "(" ++ String.intercalate ", " texts ++ ")", by rw [Value.render, rendered]; rfl, ?_⟩
  rw [chars]
  exact ⟨named.append (StaysInItem.joined (List.forall_mem_map.mpr inside)).parenthesized, by simp⟩

theorem FilterArgument.render (argument : FilterArgument value) :
    ∃ text, value.render expand = .ok text ∧ StaysInItem 1 text.toList := by
  -- inside of parentheses only other parentheses matter
  have stays {text : List Char} (plain : Unbracketed text) : StaysInItem 1 text := plain.staysInItem (by simp)
  induction argument with
  | keyword plain => exact ⟨_, rfl, stays plain⟩
  | @number number unit plain =>
    have plainUnit : Unbracketed (unit.getD "").toList := by
      cases unit with
      | none => exact (by decide : Unbracketed [])
      | some suffix => exact plain suffix rfl
    refine ⟨_, rfl, ?_⟩
    rw [String.toList_append]
    exact (stays (unbracketed_number number)).append (stays plainUnit)
  | @percentage number =>
    refine ⟨_, rfl, ?_⟩
    rw [String.toList_append]
    exact (stays (unbracketed_number number)).append (stays (by decide))
  | color plain => exact ⟨_, rfl, stays plain⟩
  | call plain each ih =>
    obtain ⟨text, rendered, inItem, -⟩ := render_call (stays plain) ih
    exact ⟨text, rendered, inItem⟩

theorem FilterTerm.render (term : FilterTerm value) (expand : String → Except StyleError String) :
    ∃ text, value.render expand = .ok text ∧ StaysInItem 0 text.toList ∧ stripBoth isBlank text.toList ≠ [] := by
  cases term with
  | keyword plain noComma visible => exact ⟨_, rfl, plain.staysInItem fun _ => noComma, stripBoth_ne_nil visible⟩
  | call plain noComma each =>
    obtain ⟨text, rendered, stays, opened⟩ := render_call (plain.staysInItem fun _ => noComma) fun arg member =>
      (each arg member).render
    exact ⟨text, rendered, stays, stripBoth_ne_nil ⟨'(', opened, by decide⟩⟩

end render

end Mapnik
end MapStyle
