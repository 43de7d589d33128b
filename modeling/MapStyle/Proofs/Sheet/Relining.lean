import MapStyle.Proofs.Sheet.Cuts
import MapStyle.Proofs.Sheet.Numbering
/-!
Relining of sheets. Nothing is decided by a line: where tokens stand on other lines, what is read of them differs in its
lines only, those in the places of a sheet as well as that of an error.
-/
namespace MapStyle
namespace Scan

theorem joinComments_reline (f : Nat → Nat) (held : Option (List Char × Nat)) (pieces : List Piece) :
    joinComments (held.map fun comments => (comments.1, f comments.2)) (pieces.map (Piece.reline f)) =
      (joinComments held pieces).map (Piece.reline f) := by
  induction pieces generalizing held with
  | nil => rfl
  | cons piece rest ih =>
    obtain ⟨shape, raw, line⟩ := piece
    have front : (held.map fun comments => (comments.1, f comments.2)).map Prod.fst = held.map Prod.fst := by cases held <;> rfl
    have place : ((held.map fun comments => (comments.1, f comments.2)).map Prod.snd).getD (f line) =
        f ((held.map Prod.snd).getD line) := by cases held <;> rfl
    have held := ih (some ((held.map Prod.fst).getD [] ++ raw, (held.map Prod.snd).getD line))
    have unheld := ih none
    simp only [List.map_cons, joinComments, Piece.reline, front, place]
    cases shape with
    | comment => exact held
    | _ => exact congrArg _ unheld

end Scan

section reline
variable (f : Nat → Nat)

def Place.reline (place : Place) : Place := { place with line := f place.line }

/-- An error that is about no place has no line to change. -/
def StyleError.reline : StyleError → StyleError
  | flawed flaw place => flawed flaw (place.reline f)
  | zoomOutOfRange level place => zoomOutOfRange level (place.reline f)
  | undefinedVariable name place => undefinedVariable name (place.reline f)
  | unknownProperty property place => unknownProperty property (place.reline f)
  | missingProperty property symbolizer place => missingProperty property symbolizer (place.reline f)
  | invalidValue property value reason place => invalidValue property value reason (place.reline f)
  | unsupported operation => unsupported operation

def Expression.reline (expr : Expression) : Expression := { expr with place := expr.place.reline f }

def Declaration.reline (declaration : Declaration) : Declaration :=
  { declaration with value := declaration.value.reline f, place := declaration.place.reline f }

def SelectorPart.reline : SelectorPart → SelectorPart
  | .element selected => .element selected
  | .filter key op value => .filter key op (value.reline f)
  | .zoom op value => .zoom op (value.reline f)
  | .attachment joined => .attachment joined

def WrittenSelector.reline (selector : WrittenSelector) : WrittenSelector :=
  { selector with parts := selector.parts.map (SelectorPart.reline f), place := selector.place.reline f }

mutual
def Ruleset.reline : Ruleset → Ruleset
  | .mk selectors declarations children place =>
    .mk (selectors.map (WrittenSelector.reline f)) (declarations.map (Declaration.reline f))
      (Ruleset.relineAll children) (place.reline f)

def Ruleset.relineAll : List Ruleset → List Ruleset
  | [] => []
  | ruleset :: rest => Ruleset.reline ruleset :: Ruleset.relineAll rest
end

/-- A variable with its definition. -/
def relineBinding (binding : String × Expression) : String × Expression := (binding.1, binding.2.reline f)

def Sheet.reline (sheet : Sheet) : Sheet :=
  { sheet with bindings := sheet.bindings.map (relineBinding f), rulesets := Ruleset.relineAll f sheet.rulesets }

def Reader.Block.reline (block : Reader.Block) : Reader.Block :=
  ⟨block.bindings.map (relineBinding f), block.declarations.map (Declaration.reline f), Ruleset.relineAll f block.rulesets⟩

theorem Declaration.reline_ofName (fullName : String) (value : Expression) (index : Nat) (place : Place) :
    (Declaration.ofName fullName value index place).reline f =
      Declaration.ofName fullName (value.reline f) index (place.reline f) := by
  rw [ofName_eq, ofName_eq]
  rfl

namespace Lexeme

mutual
def reline : Lexeme → Lexeme
  | leaf token line => leaf token (f line)
  | group bracket items line => group bracket (relineAll items) (f line)

def relineAll : List Lexeme → List Lexeme
  | [] => []
  | item :: rest => reline item :: relineAll rest
end

theorem relineAll_eq (items : List Lexeme) : relineAll f items = items.map (reline f) := by
  induction items with
  | nil => rfl
  | cons item rest ih => rw [relineAll, ih, List.map_cons]

@[simp] theorem reline_leaf (token : Token) (line : Nat) : (leaf token line).reline f = leaf token (f line) := rfl

@[simp] theorem reline_group (bracket : Scan.Bracket) (items : List Lexeme) (line : Nat) :
    (group bracket items line).reline f = group bracket (items.map (reline f)) (f line) := by
  rw [reline, relineAll_eq]

@[simp] theorem line_reline (item : Lexeme) : (item.reline f).line = f item.line := by cases item <;> rfl

@[simp] theorem isToken_reline (token : Token) (item : Lexeme) : (item.reline f).isToken token = item.isToken token := by
  cases item <;> rfl

@[simp] theorem isBlank_reline (item : Lexeme) : (item.reline f).isBlank = item.isBlank := isToken_reline f .blank item

theorem significant_reline (items : List Lexeme) : significant (items.map (reline f)) = (significant items).map (reline f) := by
  simp [significant, List.filter_map, Function.comp_def]

mutual
theorem text_reline (item : Lexeme) : (item.reline f).text = item.text := by
  cases item with
  | leaf token line => rfl
  | group bracket items line => rw [reline_group, text, text, textAll_reline items]

theorem textAll_reline (items : List Lexeme) : textAll (items.map (reline f)) = textAll items := by
  cases items with
  | nil => rfl
  | cons item rest => rw [List.map_cons, textAll, textAll, text_reline item, textAll_reline rest]
end

def Frame.reline (frame : Frame) : Frame := ⟨frame.bracket, f frame.line, frame.before.map (Lexeme.reline f)⟩

def Nest.reline (nest : Nest) : Nest := ⟨nest.frames.map (Frame.reline f), nest.items.map (Lexeme.reline f)⟩

theorem close_reline (frame : Frame) (items : List Lexeme) :
    (frame.reline f).close (items.map (Lexeme.reline f)) = (frame.close items).map (Lexeme.reline f) := by
  simp [Frame.close, Frame.reline]

theorem push_reline (nest : Nest) (item : Lexeme) : (nest.reline f).push (item.reline f) = (nest.push item).reline f := rfl

theorem step_reline (nest : Nest) (piece : Scan.Piece) :
    (nest.reline f).step (piece.reline f) = (nest.step piece).reline f := by
  obtain ⟨shape, raw, line⟩ := piece
  obtain ⟨frames, items⟩ := nest
  cases shape with
  | opening bracket => rfl
  | closing char =>
    cases frames with
    | nil => rfl
    | cons frame frames =>
      simp only [Nest.step, Nest.reline, Scan.Piece.reline, List.map_cons]
      have same : (frame.reline f).bracket = frame.bracket := rfl
      rw [same]
      split
      · simp only [close_reline]
      · rfl
  | _ => rfl

/-- Brackets match by their kinds, wherever they stand. -/
theorem ofPieces_reline (pieces : List Scan.Piece) :
    ofPieces (pieces.map (Scan.Piece.reline f)) = (ofPieces pieces).map (reline f) := by
  have run (nest : Nest) :
      (pieces.map (Scan.Piece.reline f)).foldl Nest.step (nest.reline f) = (pieces.foldl Nest.step nest).reline f := by
    induction pieces generalizing nest with
    | nil => rfl
    | cons piece rest ih => rw [List.map_cons, List.foldl_cons, step_reline, ih, List.foldl_cons]
  have finish (nest : Nest) : (nest.reline f).finish = nest.finish.map (reline f) := by
    obtain ⟨frames, items⟩ := nest
    simp only [Nest.finish, Nest.reline, List.map_reverse]
    congr 1
    induction frames generalizing items with
    | nil => rfl
    | cons frame rest ih => rw [List.map_cons, List.foldl_cons, close_reline, ih, List.foldl_cons]
  rw [ofPieces, ofPieces, ← finish, ← run]
  rfl

end Lexeme

namespace Reader
open Lexeme

section terms
variable {α : Type}

/-- The same attempt with another error for the one of old lines. -/
abbrev relined (attempt : Except StyleError α) : Except StyleError α := attempt.mapError (StyleError.reline f)

theorem readNumber_reline (text : String) (place : Place) :
    readNumber text (place.reline f) = relined f (readNumber text place) := by
  unfold readNumber
  split <;> rfl

theorem sequenceOf_reline (terms : List Value) (place : Place) :
    sequenceOf terms (place.reline f) = relined f (sequenceOf terms place) := by
  unfold sequenceOf
  split <;> rfl

theorem urlPath_reline (items : List Lexeme) : urlPath (items.map (Lexeme.reline f)) = urlPath items := by
  unfold urlPath
  rw [significant_reline, textAll_reline]
  cases significant items with
  | nil => rfl
  | cons item rest =>
    cases item with
    | leaf token line => cases token <;> rfl
    | group bracket inner line => rw [List.map_cons, reline_group]

theorem readToken_reline (token : Token) (line : Nat) (place : Place) :
    readToken token (f line) (place.reline f) = relined f (readToken token line place) := by
  cases token with
  | number text | measure text unit | percentage text =>
    simp only [readToken, readNumber_reline]
    cases readNumber text place <;> rfl
  | _ => rfl

mutual
/-- A term is read from the text of its tokens; only the place of an error has a line. -/
theorem readTerm_reline (place : Place) (item : Lexeme) :
    readTerm (place.reline f) (item.reline f) = relined f (readTerm place item) := by
  cases item with
  | leaf token line =>
    rw [reline_leaf, readTerm, readTerm]
    exact readToken_reline f token line place
  | group bracket items line =>
    have parts := readParts_reline place [] items
    have text := text_reline f (group bracket items line)
    rw [reline_group] at text ⊢
    cases bracket with
    | square => simp only [readTerm, textAll_reline]; rfl
    | curly =>
      simp only [readTerm, text]
      rfl
    | round =>
      simp only [readTerm, parts]
      cases readParts place [] items <;> rfl
    | call name =>
      simp only [readTerm, parts, urlPath_reline, significant_reline, List.isEmpty_map]
      split
      · rfl
      · split
        · rfl
        · cases readParts place [] items <;> rfl

theorem readParts_reline (place : Place) (terms : List Value) (items : List Lexeme) :
    readParts (place.reline f) terms (items.map (Lexeme.reline f)) = relined f (readParts place terms items) := by
  cases items with
  | nil =>
    simp only [List.map_nil, readParts, sequenceOf_reline]
    cases sequenceOf terms place <;> rfl
  | cons item rest =>
    have term := readTerm_reline place item
    have after (terms : List Value) := readParts_reline place terms rest
    simp only [List.map_cons, readParts, isToken_reline, isBlank_reline, sequenceOf_reline, term, after]
    split
    · cases sequenceOf terms place with
      | error error => rfl
      | ok part => cases readParts place [] rest <;> rfl
    · split
      · rfl
      · cases readTerm place item <;> rfl
end

end terms

section reading
variable {α β γ δ : Type} {f}

/-- `other` takes the same numbers as `reading`. Their results are the `same` up to lines, or their errors are. -/
def Relines (f : Nat → Nat) (same : α → β → Prop) (reading : Reading α) (other : Reading β) : Prop :=
  ∀ start, match reading start with
    | .ok (a, stop) => ∃ b, other start = .ok (b, stop) ∧ same a b
    | .error error => other start = .error (error.reline f)

namespace Relines
variable {same : α → β → Prop} {sameNext : γ → δ → Prop}

theorem pure {a : α} {b : β} (isSame : same a b) : Relines f same (Pure.pure a) (Pure.pure b) := fun _ => ⟨b, rfl, isSame⟩

theorem fail (flaw : Flaw) (place : Place) : Relines f same (Reader.fail flaw place) (Reader.fail flaw (place.reline f)) :=
  fun _ => rfl

theorem lift (attempt : Except StyleError α) :
    Relines f (fun a b => b = a) (liftM attempt : Reading α) (liftM (relined f attempt)) := by
  cases attempt with
  | error error => exact fun _ => rfl
  | ok a => exact Relines.pure rfl

theorem bind {reading : Reading α} {other : Reading β} {next : α → Reading γ} {nextOther : β → Reading δ}
    (first : Relines f same reading other) (rest : ∀ a b, same a b → Relines f sameNext (next a) (nextOther b)) :
    Relines f sameNext (reading >>= next) (other >>= nextOther) := by
  intro start
  have before := first start
  change match reading start >>= fun read => next read.1 read.2 with
    | .ok (a, stop) => ∃ b, (other start >>= fun read => nextOther read.1 read.2) = .ok (b, stop) ∧ sameNext a b
    | .error error => (other start >>= fun read => nextOther read.1 read.2) = .error (error.reline f)
  cases ran : reading start with
  | error error =>
    rw [ran] at before
    rw [before]
    rfl
  | ok read =>
    rw [ran] at before
    obtain ⟨b, ranOther, isSame⟩ := before
    rw [ranOther]
    exact rest read.1 b isSame read.2

theorem cons {g : α → β} {reading : Reading α} {other : Reading β} {readings : Reading (List α)} {others : Reading (List β)}
    (first : Relines f (fun a b => b = g a) reading other) (rest : Relines f (fun a b => b = a.map g) readings others) :
    Relines f (fun a b => b = a.map g) (do return (← reading) :: (← readings)) (do return (← other) :: (← others)) := by
  apply Relines.bind first
  rintro a _ rfl
  apply Relines.bind rest
  rintro as _ rfl
  exact Relines.pure rfl

end Relines

theorem takeIndex_relines : Relines f (fun index other => other = index) takeIndex takeIndex := fun _ => ⟨_, rfl, rfl⟩

/-- The identity of an expression is the next one to be taken, on whatever line it stands. -/
theorem readExpression_relines (place : Place) (items : List Lexeme) :
    Relines f (fun expr other => other = expr.reline f) (readExpression place items)
      (readExpression (place.reline f) (items.map (Lexeme.reline f))) := by
  refine @Relines.bind _ _ _ _ _ (fun value other => other = value) _ _ _ _ _ ?_ ?_
  · unfold readValue
    rw [readParts_reline]
    apply Relines.bind (Relines.lift _)
    rintro parts _ rfl
    exact Relines.pure rfl
  · rintro value _ rfl
    exact fun _ => ⟨_, rfl, rfl⟩

theorem startsComparison_reline (item : Lexeme) : startsComparison (item.reline f) = startsComparison item := by
  cases item with
  | leaf token line => cases token <;> rfl
  | group bracket items line => rw [reline_group]; rfl

theorem continuesComparison_reline (item : Lexeme) : continuesComparison (item.reline f) = continuesComparison item := by
  rw [continuesComparison, startsComparison_reline, isToken_reline]
  rfl

theorem filterKey_relines (place : Place) (items : List Lexeme) :
    Relines f (fun key other => other = key) (filterKey items place)
      (filterKey (items.map (Lexeme.reline f)) (place.reline f)) := by
  unfold filterKey
  rw [significant_reline, textAll_reline]
  cases significant items with
  | nil => exact Relines.fail _ _
  | cons item rest =>
    cases item with
    | leaf token line =>
      cases rest with
      | nil => cases token <;> exact Relines.pure rfl
      | cons next rest => cases token <;> exact Relines.pure rfl
    | group bracket inner line =>
      rw [List.map_cons, reline_group]
      exact Relines.pure rfl

theorem readFilter_relines (place : Place) (items : List Lexeme) :
    Relines f (fun part other => other = part.reline f) (readFilter place items)
      (readFilter (place.reline f) (items.map (Lexeme.reline f))) := by
  have others : (fun item => !startsComparison item) ∘ Lexeme.reline f = fun item => !startsComparison item :=
    funext fun item => congrArg (!·) (startsComparison_reline item)
  have symbols : continuesComparison ∘ Lexeme.reline f = continuesComparison := funext continuesComparison_reline
  unfold readFilter
  simp only [List.takeWhile_map, List.dropWhile_map, List.isEmpty_map, textAll_reline, others, symbols]
  split
  · exact Relines.fail _ _
  · apply Relines.bind (filterKey_relines place _)
    rintro key _ rfl
    split
    · exact Relines.fail _ _
    · apply Relines.bind (readExpression_relines place _)
      rintro value _ rfl
      apply Relines.pure
      split <;> rfl

theorem reline_eq_leaf {item : Lexeme} {token : Token} {line : Nat} :
    item.reline f = leaf token line ↔ ∃ before, item = leaf token before ∧ f before = line := by
  cases item <;> simp

theorem reline_eq_group {item : Lexeme} {bracket : Scan.Bracket} {items : List Lexeme} {line : Nat} :
    item.reline f = group bracket items line ↔
      ∃ inner before, item = group bracket inner before ∧ inner.map (Lexeme.reline f) = items ∧ f before = line := by
  cases item <;> simp

theorem readSelectorParts_relines (place : Place) (items : List Lexeme) :
    Relines f (fun parts other => other = parts.map (SelectorPart.reline f)) (readSelectorParts place items)
      (readSelectorParts (place.reline f) (items.map (Lexeme.reline f))) := by
  fun_induction readSelectorParts place items with
  | case1 => exact Relines.pure rfl
  | case2 _ _ _ ih => exact Relines.cons (Relines.pure rfl) ih
  | case3 _ _ _ ih => exact Relines.cons (Relines.pure rfl) ih
  | case4 _ _ _ _ ih => exact Relines.cons (Relines.pure rfl) ih
  -- where no pattern fits, none fits on other lines either: a token stays what it is
  | case5 _ rest noName =>
    rw [List.map_cons, reline_leaf, readSelectorParts]
    · exact Relines.fail _ _
    · intro name line more same
      obtain ⟨word, others, rfl, isWord, -⟩ := List.map_eq_cons_iff.mp same
      obtain ⟨before, rfl, -⟩ := reline_eq_leaf.mp isWord
      exact noName name before others rfl
  | case6 _ _ ih => exact Relines.cons (Relines.pure rfl) ih
  | case7 inner line rest ih =>
    rw [List.map_cons, reline_group, readSelectorParts]
    exact Relines.cons (readFilter_relines _ _) ih
  | case8 _ _ _ _ _ ih => exact Relines.cons (Relines.pure rfl) ih
  | case9 line rest noName =>
    rw [List.map_cons, reline_leaf, readSelectorParts]
    · exact Relines.fail _ _
    · intro _ name _ more same
      obtain ⟨colon, others, rfl, isColon, following⟩ := List.map_eq_cons_iff.mp same
      obtain ⟨word, others, rfl, isWord, -⟩ := List.map_eq_cons_iff.mp following
      obtain ⟨lineColon, rfl, -⟩ := reline_eq_leaf.mp isColon
      obtain ⟨lineWord, rfl, -⟩ := reline_eq_leaf.mp isWord
      exact noName lineColon name lineWord others rfl
  | case10 item rest noHash noWord noClass noDot noStar noSquare noAttachment noColon =>
    rw [List.map_cons, readSelectorParts, text_reline]
    · exact Relines.fail _ _
    all_goals simp only [reline_eq_leaf, reline_eq_group]; grind

theorem readSelector_relines (fallback : Place) (items : List Lexeme) :
    Relines f (fun selector other => other = selector.reline f) (readSelector fallback items)
      (readSelector (fallback.reline f) (items.map (Lexeme.reline f))) := by
  have place : (((significant items).map (Lexeme.reline f)).head?.map fun item =>
        { fallback.reline f with line := item.line }).getD (fallback.reline f) =
      (((significant items).head?.map fun item => { fallback with line := item.line }).getD fallback).reline f := by
    cases significant items with
    | nil => rfl
    | cons item rest => simp [Place.reline]
  unfold readSelector
  dsimp only
  rw [significant_reline, place]
  apply Relines.bind (readSelectorParts_relines _ _)
  rintro parts _ rfl
  rw [List.isEmpty_map]
  split
  · exact Relines.fail _ _
  · apply Relines.bind takeIndex_relines
    rintro index _ rfl
    exact Relines.pure rfl

theorem readSelectors_relines (fallback : Place) (parts : List (List Lexeme)) :
    Relines f (fun selectors other => other = selectors.map (WrittenSelector.reline f)) (readSelectors fallback parts)
      (readSelectors (fallback.reline f) (parts.map (List.map (Lexeme.reline f)))) := by
  induction parts with
  | nil => exact Relines.pure rfl
  | cons part rest ih => exact Relines.cons (readSelector_relines fallback part) ih

theorem readDeclaration_relines (place : Place) (items : List Lexeme) :
    Relines f (fun declaration other => other = declaration.reline f) (readDeclaration place items)
      (readDeclaration (place.reline f) (items.map (Lexeme.reline f))) := by
  have others : (fun item => !Lexeme.isToken .colon item) ∘ Lexeme.reline f = fun item => !Lexeme.isToken .colon item :=
    funext fun item => congrArg (!·) (isToken_reline f .colon item)
  unfold readDeclaration
  simp only [List.takeWhile_map, List.dropWhile_map, List.isEmpty_map, textAll_reline, others]
  split
  · exact Relines.fail _ _
  · split
    · exact Relines.fail _ _
    · rw [← List.map_tail]
      apply Relines.bind (readExpression_relines _ _)
      rintro value _ rfl
      apply Relines.bind takeIndex_relines
      rintro _ index rfl
      exact Relines.pure (Declaration.reline_ofName f _ value index place).symm

theorem readVariable_relines (place : Place) (name : String) (items : List Lexeme) :
    Relines f (fun binding other => other = relineBinding f binding) (readVariable place name items)
      (readVariable (place.reline f) name (items.map (Lexeme.reline f))) := by
  have blanks : Lexeme.isBlank ∘ Lexeme.reline f = Lexeme.isBlank := funext (isBlank_reline f)
  unfold readVariable
  rw [List.dropWhile_map, blanks]
  cases items.dropWhile Lexeme.isBlank with
  | nil => exact Relines.fail _ _
  | cons item rest =>
    cases item with
    | leaf token line =>
      cases token with
      | colon =>
        apply Relines.bind (readExpression_relines _ _)
        rintro value _ rfl
        exact Relines.pure rfl
      | _ => exact Relines.fail _ _
    | group bracket inner line =>
      rw [List.map_cons, reline_group]
      exact Relines.fail _ _

variable (f) in
def Pending.reline : Pending → Pending
  | .idle => .idle
  | .variable name items line => .variable name (items.map (Lexeme.reline f)) (f line)
  | .statement items line => .statement (items.map (Lexeme.reline f)) (f line)

theorem push_reline (pending : Pending) (item : Lexeme) :
    (pending.reline f).push (item.reline f) = (pending.push item).reline f := by
  cases pending with
  | idle =>
    cases item with
    | leaf token line => cases token <;> rfl
    | group bracket items line =>
      rw [reline_group]
      simp [Pending.push, Pending.reline, Lexeme.isBlank, Lexeme.isToken, Lexeme.line]
  | _ => rfl

theorem head?_reline (line : Nat) (pending : Pending) :
    (pending.reline f).head? (f line) =
      (pending.head? line).map fun (head, start) => (head.map (Lexeme.reline f), f start) := by
  cases pending <;> simp [Pending.reline, Pending.head?]

/-- What the end of a statement adds to a block does not depend on the lines in the block. -/
theorem endStatement_relines (file : String) (pending : Pending) :
    Relines f (fun add other => ∀ block, other (block.reline f) = (add block).reline f) (endStatement file pending)
      (endStatement file (pending.reline f)) := by
  cases pending with
  | idle => exact Relines.pure fun block => rfl
  | «variable» name items line =>
    rw [Pending.reline, endStatement, endStatement, ← List.map_reverse]
    apply Relines.bind (readVariable_relines _ _ _)
    rintro binding _ rfl
    exact Relines.pure fun block => rfl
  | statement items line =>
    rw [Pending.reline, endStatement, endStatement, ← List.map_reverse]
    apply Relines.bind (readDeclaration_relines _ _)
    rintro declaration _ rfl
    exact Relines.pure fun block => rfl

/-- Blocks on other lines: the rulesets and declarations are the same up to lines, and they take the same numbers. -/
theorem readBlock_relines (file : String) (pending : Pending) (items : List Lexeme) :
    Relines f (fun block other => other = block.reline f) (readBlock file pending items)
      (readBlock file (pending.reline f) (items.map (Lexeme.reline f))) := by
  fun_induction readBlock file pending items with
  | case1 pending =>
    rw [List.map_nil, readBlock]
    apply Relines.bind (endStatement_relines file pending)
    intro add other adds
    exact Relines.pure (adds ⟨[], [], []⟩)
  | case2 pending body line rest head firstLine found ihBody ihRest =>
    rw [List.map_cons, reline_group, readBlock, head?_reline, found]
    have comma : Lexeme.isToken .comma ∘ Lexeme.reline f = Lexeme.isToken .comma := funext (isToken_reline f .comma)
    simp only [Option.map_some, Text.splitBy_map, comma]
    apply Relines.bind (readSelectors_relines ⟨file, firstLine⟩ _)
    rintro selectors _ rfl
    apply Relines.bind ihBody
    rintro inner _ rfl
    apply Relines.bind ihRest
    rintro after _ rfl
    apply Relines.pure
    simp [Block.reline, Ruleset.relineAll, Ruleset.reline, Place.reline]
  | case3 pending body line rest found ih =>
    rw [List.map_cons, reline_group, readBlock, head?_reline, found]
    rw [← push_reline, reline_group] at ih
    exact ih
  | case4 pending item rest notGroup isSemicolon ih =>
    rw [List.map_cons, readBlock, isToken_reline, if_pos isSemicolon]
    · apply Relines.bind (endStatement_relines file pending)
      intro add other adds
      apply Relines.bind ih
      rintro block _ rfl
      exact Relines.pure (adds block)
    · intro inner line isGroup
      obtain ⟨body, start, same, -⟩ := reline_eq_group.mp isGroup
      exact notGroup body start same
  | case5 pending item rest notGroup notSemicolon ih =>
    rw [List.map_cons, readBlock, isToken_reline, if_neg notSemicolon, push_reline]
    · exact ih
    · intro inner line isGroup
      obtain ⟨body, start, same, -⟩ := reline_eq_group.mp isGroup
      exact notGroup body start same

end reading
end Reader
end reline
end MapStyle
