import Mathlib.Data.List.Forall2
import MapStyle.Proofs.Value.Precedence
import MapStyle.Proofs.Value.Substitution
import MapStyle.Sheet.Reader
/-!
Grouping. An arithmetic expression is read as a tree of values, with a value of its own for each pair of parentheses and for
each variable, and written as one line without them; the line stands for another expression where they are needed.
-/
namespace MapStyle.Arithmetic
open Reader Lexeme

def Magnitude : Type := { value : Number // hasSign false value }

mutual
/-- What an operation is made on: a number, a field, a variable with the expression that it is defined as, or an expression
in parentheses. -/
inductive Operand where
  | number (value : Number)
  | field (name : String)
  | variable (name : String) (definition : Formula)
  | group (inner : Formula)

/-- An arithmetic expression as written. The sign that stands right in front of a number is an operation too where the number
follows an operand. -/
inductive Formula where
  | operand (operand : Operand)
  | link (front : Formula) (op : Operation) (operand : Operand)
  | signed (front : Formula) (negative : Bool) (magnitude : Magnitude)
end

def withSign (negative : Bool) (magnitude : Magnitude) : Number :=
  if negative then opposite magnitude.val else magnitude.val

def signOperation (negative : Bool) : Operation := if negative then .minus else .plus

mutual
/-- The tree that an operand stands for; a variable and what is in parentheses are operands as a whole. -/
def Operand.tree : Operand → Tree
  | .number value => .leaf (.number value)
  | .field name => .leaf (.field name)
  | .variable _ definition => definition.sum.tree
  | .group inner => inner.sum.tree

def Formula.sum : Formula → Sum
  | .operand operand => ⟨none, operand.tree⟩
  | .link front op operand => front.sum.extend op operand.tree
  | .signed front negative magnitude =>
    front.sum.extend (signOperation negative) (.leaf (.number magnitude.val))
end

def Formula.tree (formula : Formula) : Tree := formula.sum.tree

def valueOf : List Value → Value
  | [term] => term
  | terms => .sequence terms

mutual
def Operand.value : Operand → Value
  | .number value => .number value none
  | .field name => .field name
  | .variable name _ => .variable name
  | .group inner => valueOf inner.terms

/-- The terms of the value that an expression is read as. -/
def Formula.terms : Formula → List Value
  | .operand operand => [operand.value]
  | .link front op operand => front.terms ++ [.mark op.char, operand.value]
  | .signed front negative magnitude => front.terms ++ [.number (withSign negative magnitude) none]
end

def Formula.value (formula : Formula) : Value := valueOf formula.terms

mutual
def Operand.tokens : Operand → List Token
  | .number value => [.leaf (.number value)]
  | .field name => [.leaf (.field name)]
  | .variable _ definition => definition.tokens
  | .group inner => inner.tokens

def Formula.tokens : Formula → List Token
  | .operand operand => operand.tokens
  | .link front op operand => front.tokens ++ .operation op :: operand.tokens
  | .signed front negative magnitude => front.tokens ++ [.leaf (.number (withSign negative magnitude))]
end

mutual
/-- Whether a plus sign stands right in front of a number that follows an operand. -/
def Operand.hasGluedPlus : Operand → Bool
  | .number _ | .field _ => false
  | .variable _ definition => definition.hasGluedPlus
  | .group inner => inner.hasGluedPlus

def Formula.hasGluedPlus : Formula → Bool
  | .operand operand => operand.hasGluedPlus
  | .link front _ operand => front.hasGluedPlus || operand.hasGluedPlus
  | .signed front negative _ => front.hasGluedPlus || !negative
end

mutual
/-- How many variables are within each other at most. -/
def Operand.depth : Operand → Nat
  | .number _ | .field _ => 0
  | .variable _ definition => definition.depth + 1
  | .group inner => inner.depth

def Formula.depth : Formula → Nat
  | .operand operand => operand.depth
  | .link front _ operand => max front.depth operand.depth
  | .signed front _ _ => front.depth
end

mutual
/-- Whether the variables of an expression are defined as it says. -/
def Operand.Bound (scope : Scope) : Operand → Prop
  | .number _ | .field _ => True
  | .variable name definition =>
    (∃ expr, scope.get? name = some expr ∧ expr.value = definition.value) ∧ definition.Bound scope
  | .group inner => inner.Bound scope

def Formula.Bound (scope : Scope) : Formula → Prop
  | .operand operand => operand.Bound scope
  | .link front _ operand => front.Bound scope ∧ operand.Bound scope
  | .signed front _ _ => front.Bound scope
end

mutual
/-- Whether a lexeme is how an operand is written. -/
def Operand.IsSpelled : Operand → Lexeme → Prop
  | .number value, item => ∃ text line, item = .leaf (.number text) line ∧ Number.read? text = some value
  | .field name, item => ∃ inside line, item = .group .square inside line ∧ Text.trim (textAll inside) = name
  | .variable name _, item => ∃ line, item = .leaf (.atWord name) line
  | .group inner, item => ∃ inside line, item = .group .round inside line ∧ inner.IsSpelled (significant inside)

/-- Whether lexemes, leaving out blanks, are how an expression is written. -/
def Formula.IsSpelled : Formula → List Lexeme → Prop
  | .operand operand, items => ∃ item, items = [item] ∧ operand.IsSpelled item
  | .link front op operand, items => ∃ before line item, items = before ++ [.leaf (.mark op.char) line, item] ∧
      front.IsSpelled before ∧ operand.IsSpelled item
  | .signed front negative magnitude, items => ∃ before text digits line, items = before ++ [.leaf (.number text) line] ∧
      front.IsSpelled before ∧ text.toList = (signOperation negative).char :: digits ∧ Scan.startsNumber digits ∧
      Number.readChars? digits = some magnitude.val
end

section read
variable {place : Place} {items : List Lexeme} {values terms acc : List Value}

theorem readChars_sign {negative : Bool} {value : Number} {digits : List Char} (starts : Scan.startsNumber digits)
    (unsigned : hasSign false value) (read : Number.readChars? digits = some value) :
    Number.readChars? ((signOperation negative).char :: digits) = some (if negative then opposite value else value) := by
  have noSign : Decimal.splitSign digits = (false, digits) := by
    unfold Decimal.splitSign
    split
    · cases starts
    · cases starts
    · rfl
  have sign : Decimal.splitSign ((signOperation negative).char :: digits) = (negative, digits) := by
    cases negative <;> rfl
  unfold Number.readChars? at read ⊢
  rw [noSign] at read
  rw [sign]
  dsimp only at read ⊢
  cases decimal : Decimal.read? digits with
  | some d =>
    rw [decimal] at read
    dsimp only at read ⊢
    obtain rfl := Option.some.inj read
    cases Format.binary64.ofDecimal? d <;> cases negative <;> rfl
  | none =>
    rw [decimal] at read
    obtain ⟨make, word, rfl⟩ := Option.map_eq_some_iff.mp read
    dsimp only at read ⊢
    rw [word]
    unfold Number.readWord? at word
    split at word
    · obtain rfl := Option.some.inj word
      cases negative <;> rfl
    · split at word
      · obtain rfl := Option.some.inj word
        cases unsigned
      · cases word

theorem Formula.terms_ne_nil (formula : Formula) : formula.terms ≠ [] := by
  cases formula <;> simp [Formula.terms]

theorem sequenceOf_reverse (nonempty : terms ≠ []) : sequenceOf terms.reverse place = .ok (valueOf terms) := by
  match terms with
  | [] => exact absurd rfl nonempty
  | [term] => rfl
  | first :: second :: rest =>
    unfold sequenceOf
    split
    · rename_i isNil
      simp at isNil
    · rename_i one
      simpa using congrArg List.length one
    · simp [valueOf]

theorem not_comma_of_blank {item : Lexeme} (blank : item.isBlank = true) : item.isToken .comma = false := by
  cases item with
  | leaf token line => simp_all [isBlank, isToken]
  | group bracket items line => rfl

theorem not_comma_of_term {item : Lexeme} {value : Value} (read : readTerm place item = .ok value) :
    item.isToken .comma = false := by
  cases item with
  | leaf token line =>
    rw [readTerm] at read
    cases token <;> first | rfl | cases read
  | group bracket items line => rfl

theorem readParts_terms
    (read : List.Forall₂ (fun item value => readTerm place item = .ok value) (significant items) values) :
    readParts place acc items = (sequenceOf (values.reverse ++ acc) place).map fun value => [value] := by
  induction items generalizing acc values with
  | nil =>
    cases read
    rw [readParts]
    rfl
  | cons item rest ih =>
    by_cases blank : item.isBlank
    · rw [significant, List.filter_cons_of_neg (by simp [blank])] at read
      rw [readParts, not_comma_of_blank blank, blank]
      exact ih read
    · rw [significant, List.filter_cons_of_pos (by simp [blank])] at read
      cases read with
      | @cons _ value _ _ first others =>
        rw [readParts, not_comma_of_term first, if_neg (by simp), if_neg blank, first]
        exact (ih others).trans (by simp)

mutual
theorem Operand.readTerm_value (operand : Operand) {item : Lexeme} (spelled : operand.IsSpelled item) :
    readTerm place item = .ok operand.value := by
  cases operand with
  | number value =>
    obtain ⟨text, line, rfl, read⟩ := spelled
    simp [readTerm, readToken, readNumber, read, Operand.value, bind, Except.bind, pure, Except.pure]
  | field name =>
    obtain ⟨inside, line, rfl, rfl⟩ := spelled
    rw [readTerm]
    rfl
  | «variable» name definition =>
    obtain ⟨line, rfl⟩ := spelled
    rfl
  | group inner =>
    obtain ⟨inside, line, rfl, spelled⟩ := spelled
    rw [readTerm, readParts_terms (inner.readTerms_value spelled), List.append_nil,
      sequenceOf_reverse inner.terms_ne_nil]
    rfl

theorem Formula.readTerms_value (formula : Formula) {items : List Lexeme} (spelled : formula.IsSpelled items) :
    List.Forall₂ (fun item value => readTerm place item = .ok value) items formula.terms := by
  cases formula with
  | operand operand =>
    obtain ⟨item, rfl, spelled⟩ := spelled
    exact .cons (operand.readTerm_value spelled) .nil
  | link front op operand =>
    obtain ⟨before, line, item, rfl, frontSpelled, spelled⟩ := spelled
    exact List.rel_append (front.readTerms_value frontSpelled) (.cons rfl (.cons (operand.readTerm_value spelled) .nil))
  | signed front negative magnitude =>
    obtain ⟨before, text, digits, line, rfl, frontSpelled, signedText, starts, read⟩ := spelled
    refine List.rel_append (front.readTerms_value frontSpelled) (.cons ?_ .nil)
    have value : Number.read? text = some (withSign negative magnitude) := by
      rw [Number.read?, signedText, readChars_sign starts magnitude.property read, withSign]
    simp [readTerm, readToken, readNumber, value, bind, Except.bind, pure, Except.pure]
end

theorem Formula.readExpression_value (formula : Formula) (spelled : formula.IsSpelled (significant items)) (start : Numbering) :
    readExpression place items start =
      .ok (⟨start.nextId, formula.value, place⟩, { start with nextId := start.nextId + 1 }) := by
  have parts := @readParts_terms place items _ [] (formula.readTerms_value spelled)
  rw [List.append_nil, sequenceOf_reverse formula.terms_ne_nil] at parts
  unfold readExpression readValue
  rw [parts]
  rfl

end read

section render
variable {scope : Scope} {place : Place} {fuel : Nat} {expand : String → Except StyleError String}

theorem renderAll_append {values more : List Value} {texts others : List String}
    (rendered : Value.renderAll expand values = .ok texts) (alsoRendered : Value.renderAll expand more = .ok others) :
    Value.renderAll expand (values ++ more) = .ok (texts ++ others) := by
  induction values generalizing texts with
  | nil =>
    obtain rfl := Except.ok.inj rendered
    exact alsoRendered
  | cons value rest ih =>
    rw [Value.renderAll] at rendered
    cases first : value.render expand with
    | error error => rw [first] at rendered; cases rendered
    | ok text =>
      cases behind : Value.renderAll expand rest with
      | error error => rw [first, behind] at rendered; cases rendered
      | ok restTexts =>
        rw [first, behind] at rendered
        obtain rfl := Except.ok.inj rendered
        exact Value.renderAll_cons first (ih behind)

theorem render_valueOf {terms : List Value} {texts : List String} (rendered : Value.renderAll expand terms = .ok texts) :
    (valueOf terms).render expand = .ok (String.intercalate " " texts) := by
  unfold valueOf
  split
  · rename_i term
    rw [Value.renderAll] at rendered
    cases only : term.render expand with
    | error error => rw [only] at rendered; cases rendered
    | ok text =>
      rw [only] at rendered
      obtain rfl := Except.ok.inj rendered
      rw [String.intercalate_singleton]
  · rw [Value.render, rendered]
    rfl

mutual
theorem Operand.tokens_ne_nil : ∀ operand : Operand, operand.tokens ≠ []
  | .number _ => by simp [Operand.tokens]
  | .field _ => by simp [Operand.tokens]
  | .variable _ definition => definition.tokens_ne_nil
  | .group inner => inner.tokens_ne_nil

theorem Formula.tokens_ne_nil : ∀ formula : Formula, formula.tokens ≠ []
  | .operand operand => operand.tokens_ne_nil
  | .link _ _ _ => by simp [Formula.tokens]
  | .signed _ _ _ => by simp [Formula.tokens]
end

theorem renderAll_line {terms more : List Value} {texts others : List String} {tokens otherTokens : List Token}
    (rendered : Value.renderAll expand terms = .ok texts ∧ texts ≠ [] ∧ String.intercalate " " texts = written tokens)
    (alsoRendered : Value.renderAll expand more = .ok others) (hasOthers : others ≠ [])
    (line : String.intercalate " " others = written otherTokens) (nonempty : tokens ≠ []) (alsoNonempty : otherTokens ≠ []) :
    ∃ texts, Value.renderAll expand (terms ++ more) = .ok texts ∧ texts ≠ [] ∧
      String.intercalate " " texts = written (tokens ++ otherTokens) := by
  obtain ⟨read, hasTexts, same⟩ := rendered
  refine ⟨_, renderAll_append read alsoRendered, by simp [hasTexts], ?_⟩
  rw [String.intercalate_append_of_ne_nil hasTexts hasOthers, same, line, written, written, written, List.map_append,
    String.intercalate_append_of_ne_nil (by simpa using nonempty) (by simpa using alsoNonempty)]

mutual
theorem Operand.render_written (operand : Operand) (bound : operand.Bound scope) :
    ∀ {fuel : Nat}, operand.depth ≤ fuel →
      operand.value.render (scope.expand place fuel) = .ok (written operand.tokens) := by
  intro fuel shallow
  cases operand with
  | number value => simp [Operand.value, Value.render, Operand.tokens, written, Token.text, String.intercalate_singleton]
  | field name => simp [Operand.value, Value.render, Operand.tokens, written, Token.text, String.intercalate_singleton]
  | «variable» name definition =>
    obtain ⟨⟨expr, found, same⟩, bound⟩ := bound
    cases fuel with
    | zero => simp [Operand.depth] at shallow
    | succ fuel =>
      obtain ⟨texts, rendered, -, line⟩ := definition.render_terms bound (Nat.le_of_succ_le_succ shallow)
      rw [Operand.value, Value.render, Scope.expand, found]
      dsimp only
      rw [same, Operand.tokens, ← line]
      exact render_valueOf rendered
  | group inner =>
    obtain ⟨texts, rendered, -, line⟩ := inner.render_terms bound shallow
    exact line ▸ render_valueOf rendered

theorem Formula.render_terms (formula : Formula) (bound : formula.Bound scope) :
    ∀ {fuel : Nat}, formula.depth ≤ fuel → ∃ texts, Value.renderAll (scope.expand place fuel) formula.terms = .ok texts ∧
      texts ≠ [] ∧ String.intercalate " " texts = written formula.tokens := by
  intro fuel shallow
  cases formula with
  | operand operand =>
    exact ⟨_, Value.renderAll_cons (operand.render_written bound shallow) rfl, by simp, String.intercalate_singleton⟩
  | link front op operand =>
    obtain ⟨texts, rendered⟩ := front.render_terms bound.1 (Nat.le_trans (Nat.le_max_left _ _) shallow)
    have last := operand.render_written bound.2 (Nat.le_trans (Nat.le_max_right _ _) shallow)
    refine renderAll_line rendered (Value.renderAll_cons rfl (Value.renderAll_cons last rfl)) (by simp) ?_ front.tokens_ne_nil (by simp)
    rw [String.intercalate_cons_of_ne_nil (by simp), String.intercalate_singleton, written, written, List.map_cons,
      String.intercalate_cons_of_ne_nil (by simpa using operand.tokens_ne_nil)]
    rfl
  | signed front negative magnitude =>
    obtain ⟨texts, rendered⟩ := front.render_terms bound shallow
    refine renderAll_line rendered (Value.renderAll_cons rfl rfl) (by simp) ?_ front.tokens_ne_nil (by simp)
    simp [written, Token.text, String.intercalate_singleton]
end

theorem namesAll_append (values more : List Value) :
    Value.namesAll (values ++ more) = Value.namesAll values ++ Value.namesAll more := by
  induction values with
  | nil => rfl
  | cons value rest ih => rw [List.cons_append, Value.namesAll, Value.namesAll, ih, List.append_assoc]

theorem names_valueOf (terms : List Value) : (valueOf terms).names = Value.namesAll terms := by
  unfold valueOf
  split
  · simp [Value.namesAll]
  · rfl

mutual
theorem Operand.expand_isOk_iff (operand : Operand) (bound : operand.Bound scope) : ∀ {fuel : Nat},
    (∀ name ∈ operand.value.names, (scope.expand place fuel name).isOk) ↔ operand.depth ≤ fuel := by
  intro fuel
  cases operand with
  | number value => simp [Operand.value, Value.names, Operand.depth]
  | field name => simp [Operand.value, Value.names, Operand.depth]
  | «variable» name definition =>
    obtain ⟨⟨expr, found, same⟩, bound⟩ := bound
    cases fuel with
    | zero => simp [Operand.value, Value.names, Operand.depth, Scope.expand_zero]
    | succ fuel =>
      have inside : (∀ name ∈ Value.namesAll definition.terms, (scope.expand place fuel name).isOk) ↔
          definition.depth ≤ fuel := definition.expand_isOk_iff bound
      simp [Operand.value, Value.names, Operand.depth, Scope.expand_succ, found, same, Value.render_isOk, Formula.value,
        names_valueOf, inside]
  | group inner => exact (names_valueOf inner.terms) ▸ inner.expand_isOk_iff bound

theorem Formula.expand_isOk_iff (formula : Formula) (bound : formula.Bound scope) : ∀ {fuel : Nat},
    (∀ name ∈ Value.namesAll formula.terms, (scope.expand place fuel name).isOk) ↔ formula.depth ≤ fuel := by
  intro fuel
  cases formula with
  | operand operand => simpa [Formula.terms, Value.namesAll, Formula.depth] using operand.expand_isOk_iff bound
  | link front op operand =>
    rw [Formula.terms, namesAll_append, List.forall_mem_append, front.expand_isOk_iff bound.1, Formula.depth,
      Nat.max_le]
    simp [Value.namesAll, Value.names, operand.expand_isOk_iff bound.2]
  | signed front negative magnitude =>
    rw [Formula.terms, namesAll_append, List.forall_mem_append, front.expand_isOk_iff bound]
    simp [Value.namesAll, Value.names, Formula.depth]
end

theorem Formula.evaluateAt_ok_iff (formula : Formula) (bound : formula.Bound scope) (text : String) :
    scope.evaluateAt formula.value place = .ok text ↔ formula.depth ≤ Scope.maxDepth ∧ text = written formula.tokens := by
  have isOk : (formula.value.render (scope.expand place Scope.maxDepth)).isOk ↔ _ := Value.render_isOk formula.value
  rw [Formula.value, names_valueOf, formula.expand_isOk_iff bound] at isOk
  have rendered (shallow : formula.depth ≤ Scope.maxDepth) :
      scope.evaluateAt formula.value place = .ok (written formula.tokens) := by
    obtain ⟨texts, rendered, -, line⟩ := formula.render_terms bound shallow
    exact line ▸ render_valueOf rendered
  constructor
  · intro evaluated
    have shallow := isOk.mp (by rw [← Formula.value, ← Scope.evaluateAt, evaluated]; rfl)
    exact ⟨shallow, Except.ok.inj (evaluated.symm.trans (rendered shallow))⟩
  · rintro ⟨shallow, rfl⟩
    exact rendered shallow

end render

section line
variable {value : Number}

theorem opposite_sign (unsigned : hasSign false value) :
    hasSign true (opposite value) = true ∧ hasSign true value = false ∧ opposite (opposite value) = value := by
  cases value with
  | nan => simp [hasSign] at unsigned
  | infinite sign => cases sign <;> simp_all [hasSign, opposite]
  | finite sign steps => cases sign <;> simp_all [hasSign, opposite]

theorem links?_minus (unsigned : hasSign false value) (rest : List Token) :
    links? (.leaf (.number (opposite value)) :: rest) = (links? rest).map ((.minus, .number value) :: ·) := by
  obtain ⟨negative, -, same⟩ := opposite_sign unsigned
  rw [links?, if_pos negative, same]

theorem links?_plus (unsigned : hasSign false value) (rest : List Token) :
    links? (.leaf (.number value) :: rest) = none := by
  obtain ⟨-, positive, -⟩ := opposite_sign unsigned
  rw [links?, if_neg (by simp [positive])]

def Line (tokens : List Token) (first : Leaf) (links : Option (List (Operation × Leaf))) : Prop :=
  ∃ rest, tokens = .leaf first :: rest ∧
    ∀ more, links? (rest ++ more) = links.bind fun links => (links? more).map (links ++ ·)

theorem Line.link {tokens others : List Token} {first next : Leaf} {links more : Option (List (Operation × Leaf))}
    (line : Line tokens first links) (op : Operation) (behind : Line others next more) :
    Line (tokens ++ .operation op :: others) first
      (links.bind fun links => more.map fun more => links ++ (op, next) :: more) := by
  obtain ⟨rest, rfl, reads⟩ := line
  obtain ⟨others, rfl, alsoReads⟩ := behind
  refine ⟨rest ++ .operation op :: .leaf next :: others, rfl, fun further => ?_⟩
  rw [List.append_assoc, reads, List.cons_append, List.cons_append, links?, alsoReads]
  cases links with
  | none => rfl
  | some links => cases more <;> simp [Function.comp_def]

mutual
theorem Operand.line : ∀ operand : Operand,
    Line operand.tokens operand.tree.first (if operand.hasGluedPlus then none else some operand.tree.links)
  | .number value => ⟨[], rfl, by simp [Operand.hasGluedPlus, Operand.tree, Tree.links]⟩
  | .field name => ⟨[], rfl, by simp [Operand.hasGluedPlus, Operand.tree, Tree.links]⟩
  | .variable _ definition => definition.line
  | .group inner => inner.line

theorem Formula.line : ∀ formula : Formula,
    Line formula.tokens formula.tree.first (if formula.hasGluedPlus then none else some formula.tree.links)
  | .operand operand => operand.line
  | .link front op operand => by
    have line := front.line.link op operand.line
    rw [Formula.tree, Formula.sum, Sum.extend_first, Sum.extend_links, Formula.hasGluedPlus]
    cases kept : front.hasGluedPlus <;> cases alsoKept : operand.hasGluedPlus <;> simp only [kept, alsoKept] at line <;>
      exact line
  | .signed front negative magnitude => by
    obtain ⟨rest, same, reads⟩ := front.line
    rw [Formula.tree, Formula.sum, Sum.extend_first, Sum.extend_links, Formula.hasGluedPlus]
    refine ⟨rest ++ [.leaf (.number (withSign negative magnitude))], by rw [Formula.tokens, same]; rfl, fun more => ?_⟩
    rw [List.append_assoc, reads, List.singleton_append]
    cases negative with
    | true =>
      rw [show withSign true magnitude = opposite magnitude.val from rfl, links?_minus magnitude.property]
      cases front.hasGluedPlus <;> simp [Function.comp_def, signOperation, Tree.first, Tree.links, Formula.tree]
    | false =>
      rw [show withSign false magnitude = magnitude.val from rfl, links?_plus magnitude.property]
      cases front.hasGluedPlus <;> simp
end

theorem Formula.read_tokens_iff (formula : Formula) :
    read? formula.tokens = some formula.tree ↔ formula.hasGluedPlus = false ∧ formula.tree.Plain := by
  obtain ⟨rest, same, reads⟩ := formula.line
  have links := reads []
  rw [List.append_nil] at links
  rw [same, read?, links, ← extendAll_tree_iff]
  cases formula.hasGluedPlus <;> simp [links?]

theorem plusSigns_withSign (negative : Bool) (magnitude : Magnitude) :
    plusSigns (withSign negative magnitude).text + (if negative then 0 else 1) =
      plusSigns (Token.operation (signOperation negative)).text + plusSigns magnitude.val.text := by
  obtain ⟨isNegative, -, same⟩ := opposite_sign magnitude.property
  cases negative with
  | true =>
    rw [show withSign true magnitude = opposite magnitude.val from rfl, text_of_negative isNegative, same, plusSigns_append]
    rfl
  | false => exact Nat.add_comm _ _

mutual
theorem Operand.plusSigns_le : ∀ operand : Operand,
    plusSignsIn operand.tokens + (if operand.hasGluedPlus then 1 else 0) ≤ operand.tree.plusSigns
  | .number _ => Nat.le_refl _
  | .field _ => Nat.le_refl _
  | .variable _ definition => definition.plusSigns_le
  | .group inner => inner.plusSigns_le

theorem Formula.plusSigns_le : ∀ formula : Formula,
    plusSignsIn formula.tokens + (if formula.hasGluedPlus then 1 else 0) ≤ formula.tree.plusSigns
  | .operand operand => operand.plusSigns_le
  | .link front op operand => by
    have frontLe := front.plusSigns_le
    have operandLe := operand.plusSigns_le
    rw [Formula.tree, Formula.sum, Sum.extend_plusSigns, Formula.tokens, plusSignsIn_append, plusSignsIn_cons,
      Formula.hasGluedPlus]
    rw [Formula.tree] at frontLe
    cases kept : front.hasGluedPlus <;> cases alsoKept : operand.hasGluedPlus <;>
      simp [kept, alsoKept] at frontLe operandLe ⊢ <;> omega
  | .signed front negative magnitude => by
    have frontLe := front.plusSigns_le
    have sign := plusSigns_withSign negative magnitude
    have number : (Tree.leaf (.number magnitude.val)).plusSigns = plusSigns magnitude.val.text :=
      plusSignsIn_cons _ _
    rw [Formula.tree, Formula.sum, Sum.extend_plusSigns, number, Formula.tokens, plusSignsIn_append, plusSignsIn_cons,
      plusSignsIn_nil, Token.text, Formula.hasGluedPlus]
    rw [Formula.tree] at frontLe
    cases kept : front.hasGluedPlus <;> cases negative <;> simp [kept] at frontLe sign ⊢ <;> omega
end

theorem Formula.denotes_iff (formula : Formula) :
    Denotes (written formula.tokens) formula.tree ↔ formula.hasGluedPlus = false ∧ formula.tree.Plain := by
  refine ⟨fun denotes => ⟨?_, denotes.plain⟩, fun plain => ⟨formula.tokens, rfl, formula.read_tokens_iff.mpr plain⟩⟩
  -- a glued plus sign is the only character that is lost, so counting tells the texts apart
  have count := denotes.plusSigns_eq
  have le := formula.plusSigns_le
  rw [← plusSigns_written, count] at le
  cases glued : formula.hasGluedPlus with
  | false => rfl
  | true =>
    rw [glued] at le
    exact absurd le (Nat.not_succ_le_self _)

end line

/-- An arithmetic expression is read as a value, which evaluates, where its variables go through few enough definitions, to
what it stands for in one line. The line stands for the same expression, each variable and each pair of parentheses being one
operand, just if these operands need no parentheses and no plus sign stands right in front of a number that follows an
operand. -/
theorem Formula.evaluate_denotes_iff {scope : Scope} {formula : Formula} {items : List Lexeme} (bound : formula.Bound scope)
    (spelled : formula.IsSpelled (significant items)) (place : Place) (start : Numbering) :
    ∃ expr next, readExpression place items start = .ok (expr, next) ∧
      (∀ text, scope.evaluate expr = .ok text ↔ formula.depth ≤ 32 ∧ text = written formula.tokens) ∧
      (read? formula.tokens = some formula.tree ↔ formula.hasGluedPlus = false ∧ formula.tree.Plain) ∧
      ∀ text, scope.evaluate expr = .ok text →
        (Denotes text formula.tree ↔ formula.hasGluedPlus = false ∧ formula.tree.Plain) := by
  have evaluates : ∀ text, scope.evaluateAt formula.value place = .ok text ↔ _ := formula.evaluateAt_ok_iff bound
  refine ⟨_, _, formula.readExpression_value spelled start, evaluates, formula.read_tokens_iff, fun text evaluated => ?_⟩
  rw [((evaluates text).mp evaluated).2]
  exact formula.denotes_iff

def tripled : Formula :=
  .link (.operand (.group (.link (.operand (.number (Number.ofNat 1))) .plus
    (.variable "w" (.operand (.number (Number.ofNat 2))))))) .times (.number (Number.ofNat 3))

theorem Formula.evaluate_denotes_iff_tripled :
    let scope : Scope := ⟨[("w", ⟨1, .number (Number.ofNat 2) none, ⟨"map.mss", 1⟩⟩)]⟩
    let items : List Lexeme := [.group .round [.leaf (.number "1") 2, .leaf .blank 2, .leaf (.mark '+') 2,
      .leaf (.atWord "w") 2] 2, .leaf (.mark '*') 2, .leaf .blank 2, .leaf (.number "3") 2]
    tripled.Bound scope ∧ tripled.IsSpelled (significant items) ∧
      ∃ expr next, readExpression ⟨"map.mss", 2⟩ items ⟨0, 2⟩ = .ok (expr, next) ∧
        scope.evaluate expr = .ok "1 + 2 * 3" ∧ ¬ Denotes "1 + 2 * 3" tripled.tree := by
  intro scope items
  have bound : tripled.Bound scope := ⟨⟨trivial, ⟨_, rfl, rfl⟩, trivial⟩, trivial⟩
  have one : Number.read? "1" = some (Number.ofNat 1) := by decide +kernel
  have three : Number.read? "3" = some (Number.ofNat 3) := by decide +kernel
  have spelled : tripled.IsSpelled (significant items) :=
    ⟨[_], 2, _, rfl, ⟨_, rfl, _, 2, rfl, [_], 2, _, rfl, ⟨_, rfl, _, 2, rfl, one⟩, 2, rfl⟩, _, 2, rfl, three⟩
  obtain ⟨expr, next, read, evaluates, -, denotes⟩ := Formula.evaluate_denotes_iff bound spelled ⟨"map.mss", 2⟩ ⟨0, 2⟩
  have evaluated : scope.evaluate expr = .ok "1 + 2 * 3" := (evaluates _).mpr ⟨by decide, by decide +kernel⟩
  refine ⟨bound, spelled, expr, next, read, evaluated, ?_⟩
  rw [denotes _ evaluated]
  decide

end MapStyle.Arithmetic
