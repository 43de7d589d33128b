import MapStyle.Number.Shortest
/-!
Arithmetic in one line. Without parentheses an expression is read with the usual precedence, from left to right; a tree can
be written so, and is then read back, just if it needs no parentheses.
-/
namespace MapStyle.Arithmetic

inductive Operation where
  | plus | minus | times | divided
deriving DecidableEq

def Operation.char : Operation → Char
  | plus => '+'
  | minus => '-'
  | times => '*'
  | divided => '/'

/-- Operations of a greater level go first. -/
def Operation.level : Operation → Nat
  | plus | minus => 1
  | times | divided => 2

inductive Leaf where
  | number (value : Number)
  | field (name : String)
deriving DecidableEq

inductive Tree where
  | leaf (leaf : Leaf)
  | node (op : Operation) (left right : Tree)
deriving DecidableEq

namespace Tree

def level : Tree → Nat
  | leaf _ => 3
  | node op _ _ => op.level

/-- Whether a tree needs no parentheses: to the left of an operation stands nothing of a lower level, to the right only what
is of a greater one. -/
def Plain : Tree → Prop
  | leaf _ => True
  | node op left right => left.Plain ∧ right.Plain ∧ op.level ≤ left.level ∧ op.level < right.level

instance decidablePlain : (tree : Tree) → Decidable tree.Plain
  | leaf _ => isTrue trivial
  | node op left right =>
    have := decidablePlain left
    have := decidablePlain right
    inferInstanceAs (Decidable (left.Plain ∧ right.Plain ∧ op.level ≤ left.level ∧ op.level < right.level))

/-- The leaf that stands first. -/
def first : Tree → Leaf
  | .leaf atom => atom
  | .node _ left _ => left.first

def links : Tree → List (Operation × Leaf)
  | leaf _ => []
  | node op left right => left.links ++ (op, right.first) :: right.links

end Tree

/-- A sum that is read from left to right: the summands in front of the last one with the operation after them, and the last
one, which is a product that may go on. -/
structure Sum where
  before : Option (Tree × Operation)
  product : Tree

namespace Sum

def tree (sum : Sum) : Tree :=
  match sum.before with
  | none => sum.product
  | some (left, op) => .node op left sum.product

def extend (sum : Sum) (op : Operation) (operand : Tree) : Sum :=
  if op.level = 2 then ⟨sum.before, .node op sum.product operand⟩ else ⟨some (sum.tree, op), operand⟩

def extendAll (sum : Sum) (links : List (Operation × Leaf)) : Sum :=
  links.foldl (fun sum link => sum.extend link.1 (.leaf link.2)) sum

theorem extendAll_append (sum : Sum) (links more : List (Operation × Leaf)) :
    sum.extendAll (links ++ more) = (sum.extendAll links).extendAll more := List.foldl_append

theorem extend_first (sum : Sum) (op : Operation) (operand : Tree) : (sum.extend op operand).tree.first = sum.tree.first := by
  obtain ⟨_ | ⟨left, other⟩, product⟩ := sum <;> unfold extend <;> split <;> rfl

theorem extend_links (sum : Sum) (op : Operation) (operand : Tree) :
    (sum.extend op operand).tree.links = sum.tree.links ++ (op, operand.first) :: operand.links := by
  obtain ⟨_ | ⟨left, other⟩, product⟩ := sum <;> unfold extend <;> split <;> simp [tree, Tree.links, Tree.first]

end Sum

theorem Operation.level_cases (op : Operation) : op.level = 1 ∨ op.level = 2 := by cases op <;> decide

theorem Tree.level_pos (tree : Tree) : 1 ≤ tree.level := by
  cases tree with
  | leaf atom => simp [level]
  | node op left right => rcases op.level_cases with one | two <;> simp only [level] <;> omega

/-- A sum of products, none of which needs parentheses. -/
def Sum.Plain : Sum → Prop
  | ⟨none, product⟩ => product.Plain ∧ 1 < product.level
  | ⟨some (left, op), product⟩ => (left.Plain ∧ op.level = 1) ∧ product.Plain ∧ 1 < product.level

theorem Sum.Plain.tree {sum : Sum} (plain : sum.Plain) : sum.tree.Plain := by
  obtain ⟨_ | ⟨left, op⟩, product⟩ := sum
  · exact plain.1
  · obtain ⟨⟨plainLeft, one⟩, plainProduct, isProduct⟩ := plain
    exact ⟨plainLeft, plainProduct, one ▸ left.level_pos, one ▸ isProduct⟩

theorem Sum.Plain.extend {sum : Sum} (plain : sum.Plain) (op : Operation) (atom : Leaf) :
    (sum.extend op (.leaf atom)).Plain := by
  unfold Sum.extend
  split
  · rename_i two
    have longer : sum.product.Plain → 1 < sum.product.level →
        (Tree.node op sum.product (.leaf atom)).Plain ∧ 1 < op.level :=
      fun plainProduct isProduct => ⟨⟨plainProduct, trivial, by omega, by simp [two, Tree.level]⟩, by omega⟩
    obtain ⟨_ | ⟨left, other⟩, product⟩ := sum
    · exact longer plain.1 plain.2
    · exact ⟨plain.1, longer plain.2.1 plain.2.2⟩
  · rename_i notTwo
    exact ⟨⟨plain.tree, op.level_cases.resolve_right notTwo⟩, trivial, by simp [Tree.level]⟩

theorem Sum.Plain.extendAll {sum : Sum} (plain : sum.Plain) (links : List (Operation × Leaf)) :
    (sum.extendAll links).Plain := by
  induction links generalizing sum with
  | nil => exact plain
  | cons link rest ih => exact ih (plain.extend link.1 link.2)

variable {tree : Tree}

theorem extendAll_product (plain : tree.Plain) (isProduct : 1 < tree.level) (before : Option (Tree × Operation)) :
    Sum.extendAll ⟨before, .leaf tree.first⟩ tree.links = ⟨before, tree⟩ := by
  induction tree with
  | leaf leaf => rfl
  | node op left right ihLeft ihRight =>
    obtain ⟨plainLeft, plainRight, high, higher⟩ := plain
    have two : op.level = 2 := by
      rcases op.level_cases with one | two
      · simp only [Tree.level] at isProduct; omega
      · exact two
    -- nothing is of a greater level than a product, so what stands on its right is a leaf
    cases right with
    | node other a b => rcases other.level_cases with one | two <;> simp only [Tree.level] at higher <;> omega
    | leaf leaf =>
      change Sum.extendAll ⟨before, .leaf left.first⟩ (left.links ++ [(op, leaf)]) = _
      rw [Sum.extendAll_append, ihLeft plainLeft (by omega)]
      exact if_pos two

theorem extendAll_tree (plain : tree.Plain) : (Sum.extendAll ⟨none, .leaf tree.first⟩ tree.links).tree = tree := by
  induction tree with
  | leaf leaf => rfl
  | node op left right ihLeft ihRight =>
    rcases op.level_cases with one | two
    · obtain ⟨plainLeft, plainRight, high, higher⟩ := plain
      have sum : ∀ sum : Sum, sum.tree = left →
          sum.extend op (.leaf right.first) = ⟨some (left, op), .leaf right.first⟩ := by
        rintro sum rfl
        simp [Sum.extend, one]
      rw [Tree.links, Tree.first, Sum.extendAll_append]
      change (Sum.extendAll ((Sum.extendAll _ left.links).extend op (.leaf right.first)) right.links).tree = _
      rw [sum _ (ihLeft plainLeft), extendAll_product plainRight (by omega)]
      rfl
    · rw [extendAll_product plain (by simp [Tree.level, two])]
      rfl

theorem extendAll_tree_iff (tree : Tree) :
    (Sum.extendAll ⟨none, .leaf tree.first⟩ tree.links).tree = tree ↔ tree.Plain := by
  refine ⟨fun same => ?_, extendAll_tree⟩
  have plain : (Sum.mk none (.leaf tree.first)).Plain := ⟨trivial, by simp [Tree.level]⟩
  exact same ▸ (plain.extendAll tree.links).tree

inductive Token where
  | leaf (leaf : Leaf)
  | operation (op : Operation)

def Token.text : Token → String
  | .leaf (.number value) => value.text
  | .leaf (.field name) => "[" ++ name ++ "]"
  | .operation op => String.singleton op.char

/-- Tokens in one line, a blank between each two. -/
def written (tokens : List Token) : String := String.intercalate " " (tokens.map Token.text)

def hasSign (negative : Bool) : Number → Bool
  | .finite sign _ => sign == negative
  | .infinite sign => sign == negative
  | .nan => false

def opposite : Number → Number
  | .finite sign steps => .finite (!sign) steps
  | .infinite sign => .infinite (!sign)
  | .nan => .nan

/-- The leaves that follow a leaf, with the operations in front of them. The sign of a negative number that follows without an
operation is one. -/
def links? : List Token → Option (List (Operation × Leaf))
  | [] => some []
  | .operation op :: .leaf atom :: rest => (links? rest).map ((op, atom) :: ·)
  | .leaf (.number value) :: rest =>
    if hasSign true value then (links? rest).map ((.minus, .number (opposite value)) :: ·) else none
  | _ => none

/-- The expression that tokens stand for, where they are one. -/
def read? : List Token → Option Tree
  | .leaf atom :: rest => (links? rest).map fun links => (Sum.extendAll ⟨none, .leaf atom⟩ links).tree
  | _ => none

/-- Whether a text, taken apart into tokens in some way, stands for an expression. -/
def Denotes (text : String) (tree : Tree) : Prop := ∃ tokens, written tokens = text ∧ read? tokens = some tree

theorem Denotes.plain {text : String} (denotes : Denotes text tree) : tree.Plain := by
  obtain ⟨tokens, -, read⟩ := denotes
  unfold read? at read
  split at read
  · obtain ⟨links, -, rfl⟩ := Option.map_eq_some_iff.mp read
    rename_i first rest
    have plain : (Sum.mk none (.leaf first)).Plain := ⟨trivial, by simp [Tree.level]⟩
    exact (plain.extendAll links).tree
  · cases read

def plusSigns (text : String) : Nat := text.toList.count '+'

theorem plusSigns_append (text other : String) : plusSigns (text ++ other) = plusSigns text + plusSigns other := by
  simp [plusSigns]

def plusSignsIn (tokens : List Token) : Nat := (tokens.flatMap fun token => token.text.toList).count '+'

@[simp] theorem plusSignsIn_nil : plusSignsIn [] = 0 := rfl

@[simp] theorem plusSignsIn_cons (token : Token) (tokens : List Token) :
    plusSignsIn (token :: tokens) = plusSigns token.text + plusSignsIn tokens := by
  simp [plusSignsIn, plusSigns]

@[simp] theorem plusSignsIn_append (tokens more : List Token) :
    plusSignsIn (tokens ++ more) = plusSignsIn tokens + plusSignsIn more := by
  simp [plusSignsIn]

theorem plusSigns_written (tokens : List Token) : plusSigns (written tokens) = plusSignsIn tokens := by
  induction tokens with
  | nil => rfl
  | cons token rest ih =>
    cases rest with
    | nil => simp [written]
    | cons next others =>
      rw [plusSignsIn_cons, ← ih, written, List.map_cons, String.intercalate_cons_of_ne_nil (by simp),
        plusSigns_append, plusSigns_append]
      rfl

def linked (links : List (Operation × Leaf)) : List Token := links.flatMap fun link => [.operation link.1, .leaf link.2]

def Tree.plusSigns (tree : Tree) : Nat := plusSignsIn (.leaf tree.first :: linked tree.links)

theorem Sum.extend_plusSigns (sum : Sum) (op : Operation) (operand : Tree) : (sum.extend op operand).tree.plusSigns =
    sum.tree.plusSigns + Arithmetic.plusSigns (Token.operation op).text + operand.plusSigns := by
  simp [Tree.plusSigns, extend_first, extend_links, linked, Nat.add_assoc]

theorem Sum.extendAll_first (sum : Sum) (links : List (Operation × Leaf)) :
    (sum.extendAll links).tree.first = sum.tree.first := by
  induction links generalizing sum with
  | nil => rfl
  | cons link rest ih => exact (ih _).trans (sum.extend_first _ _)

theorem Sum.extendAll_links (sum : Sum) (links : List (Operation × Leaf)) :
    (sum.extendAll links).tree.links = sum.tree.links ++ links := by
  induction links generalizing sum with
  | nil => exact (List.append_nil _).symm
  | cons link rest ih =>
    refine (ih _).trans ?_
    rw [sum.extend_links, List.append_assoc]
    rfl

theorem text_of_negative {value : Number} (negative : hasSign true value) : value.text = "-" ++ (opposite value).text := by
  cases value with
  | nan => cases negative
  | infinite sign =>
    obtain rfl : sign = true := by simpa [hasSign] using negative
    rfl
  | finite sign steps =>
    obtain rfl : sign = true := by simpa [hasSign] using negative
    simp [Number.text, opposite]

theorem plusSigns_links {tokens : List Token} {links : List (Operation × Leaf)} (read : links? tokens = some links) :
    plusSignsIn tokens = plusSignsIn (linked links) := by
  fun_induction links? tokens generalizing links with
  | case1 =>
    obtain rfl := Option.some.inj read
    rfl
  | case2 op atom rest ih =>
    obtain ⟨more, reads, rfl⟩ := Option.map_eq_some_iff.mp read
    simp [linked, ih reads]
  | case3 value rest negative ih =>
    obtain ⟨more, reads, rfl⟩ := Option.map_eq_some_iff.mp read
    have signed : plusSigns (Token.leaf (.number value)).text =
        plusSigns (Token.operation .minus).text + plusSigns (Token.leaf (.number (opposite value))).text := by
      rw [Token.text, text_of_negative negative, plusSigns_append]
      rfl
    simp [linked, ih reads, signed, Nat.add_assoc]
  | case4 => cases read
  | case5 => cases read

theorem Denotes.plusSigns_eq {text : String} (denotes : Denotes text tree) : plusSigns text = tree.plusSigns := by
  obtain ⟨tokens, rfl, read⟩ := denotes
  unfold read? at read
  split at read
  · obtain ⟨links, reads, rfl⟩ := Option.map_eq_some_iff.mp read
    rw [plusSigns_written, plusSignsIn_cons, plusSigns_links reads, Tree.plusSigns, Sum.extendAll_first,
      Sum.extendAll_links]
    exact (plusSignsIn_cons _ _).symm
  · cases read

end MapStyle.Arithmetic
