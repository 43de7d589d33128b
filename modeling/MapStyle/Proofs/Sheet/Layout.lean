import MapStyle.Proofs.Renumbering.Sources
import MapStyle.Proofs.Sheet.Order
/-!
Source indexes as a text is laid out. The statements of a block take their numbers in the order in which they are written,
although a block lists its declarations and its rulesets apart; the sheets of a map take theirs one after the other.
-/
namespace MapStyle
open Reader

namespace Reader

/-- What a block holds, in the order written. -/
inductive Entry where
  | declaration (declaration : Declaration)
  | ruleset (ruleset : Ruleset)

namespace Entry

def indexes : Entry → List Nat
  | .declaration declares => [declares.index]
  | .ruleset rules => rules.indexes

def declaration? : Entry → Option Declaration
  | .declaration declares => some declares
  | .ruleset _ => none

def ruleset? : Entry → Option Ruleset
  | .declaration _ => none
  | .ruleset rules => some rules

def Before (a b : Entry) : Prop := ∀ i ∈ a.indexes, ∀ j ∈ b.indexes, i < j

end Entry

def declarationsOf (entries : List Entry) : List Declaration := entries.filterMap Entry.declaration?

def rulesetsOf (entries : List Entry) : List Ruleset := entries.filterMap Entry.ruleset?

section entries
variable {entries : List Entry} {declaration : Declaration} {ruleset : Ruleset}

@[simp] theorem declarationsOf_declaration :
    declarationsOf (.declaration declaration :: entries) = declaration :: declarationsOf entries := rfl

@[simp] theorem declarationsOf_ruleset : declarationsOf (.ruleset ruleset :: entries) = declarationsOf entries := rfl

@[simp] theorem rulesetsOf_declaration : rulesetsOf (.declaration declaration :: entries) = rulesetsOf entries := rfl

@[simp] theorem rulesetsOf_ruleset : rulesetsOf (.ruleset ruleset :: entries) = ruleset :: rulesetsOf entries := rfl

theorem indexes_perm (entries : List Entry) :
    ((declarationsOf entries).map Declaration.index ++ Ruleset.indexesAll (rulesetsOf entries)).Perm
      (entries.flatMap Entry.indexes) := by
  induction entries with
  | nil => exact .refl _
  | cons entry rest ih =>
    cases entry with
    | declaration declaration => exact ih.cons declaration.index
    | ruleset ruleset => exact (List.perm_append_comm_assoc _ _ _).trans (ih.append_left ruleset.indexes)

end entries

/-- Whether a statement can go on with a lexeme; a semicolon ends it, and so does a group in braces. -/
def staysInStatement : Lexeme → Bool
  | .leaf token _ => token != .semicolon
  | .group bracket _ _ => bracket != .curly

def startsStatement : Lexeme → Bool
  | .leaf (.atWord _) _ => false
  | item => !item.isBlank && staysInStatement item

/-- A statement without braces ends with a block or at a semicolon. -/
def Ends (rest : List Lexeme) : Prop := ∀ item ∈ rest.head?, item.isToken .semicolon

def selectorPlace (fallback : Place) (part : List Lexeme) : Place :=
  ((Lexeme.significant part).head?.map fun item => { fallback with line := item.line }).getD fallback

def IsNamed (items : List Lexeme) (place : Place) (declaration : Declaration) : Prop :=
  ∃ value, declaration = Declaration.ofName
    (Text.removeBlanks (Lexeme.textAll (items.takeWhile fun item => !item.isToken .colon))) value declaration.index place

/-- How the statements of a block take the numbers from one to another, from the first that is written to the last. A ruleset
gives them to its selectors, from left to right, and then to its body. -/
inductive Laid (file : String) : Nat → List Lexeme → List Entry → Nat → Prop where
  | done {start : Nat} : Laid file start [] [] start
  | gap {start stop : Nat} {item : Lexeme} {rest : List Lexeme} {entries : List Entry}
      (between : item.isBlank || item.isToken .semicolon) (after : Laid file start rest entries stop) :
      Laid file start (item :: rest) entries stop
  | binding {start stop line : Nat} {name : String} {items rest : List Lexeme} {entries : List Entry}
      (inside : ∀ item ∈ items, item.isToken .semicolon = false) (ends : Ends rest)
      (after : Laid file start rest entries stop) : Laid file start (.leaf (.atWord name) line :: (items ++ rest)) entries stop
  | declaration {start stop : Nat} {first : Lexeme} {items rest : List Lexeme} {entries : List Entry}
      {declaration : Declaration} (starts : startsStatement first) (inside : ∀ item ∈ items, staysInStatement item)
      (ends : Ends rest) (named : IsNamed (first :: items) ⟨file, first.line⟩ declaration)
      (number : declaration.index = start) (after : Laid file (start + 1) rest entries stop) :
      Laid file start (first :: (items ++ rest)) (.declaration declaration :: entries) stop
  | ruleset {start middle stop line : Nat} {first : Lexeme} {items body rest : List Lexeme} {inner entries : List Entry}
      {selectors : List WrittenSelector} (starts : startsStatement first) (inside : ∀ item ∈ items, staysInStatement item)
      (places : selectors.map WrittenSelector.place =
        (Text.splitBy (Lexeme.isToken .comma) (first :: items)).map (selectorPlace ⟨file, first.line⟩))
      (numbers : selectors.map WrittenSelector.index = List.range' start selectors.length)
      (within : Laid file (start + selectors.length) body inner middle) (after : Laid file middle rest entries stop) :
      Laid file start (first :: (items ++ .group .curly body line :: rest))
        (.ruleset (.mk selectors (declarationsOf inner) (rulesetsOf inner) ⟨file, first.line⟩) :: entries) stop

section laid
variable {file : String} {start middle stop : Nat} {items : List Lexeme} {entries inner : List Entry}

theorem ruleset_takes {selectors : List WrittenSelector}
    (numbers : selectors.map WrittenSelector.index = List.range' start selectors.length)
    (within : Takes (start + selectors.length) middle (inner.flatMap Entry.indexes)) :
    Takes start middle (selectors.map WrittenSelector.index ++ (declarationsOf inner).map Declaration.index ++
      Ruleset.indexesAll (rulesetsOf inner)) := by
  have heads : Takes start (start + selectors.length) (selectors.map WrittenSelector.index) := by
    simp [Takes, numbers]
  refine (heads.append within).perm ?_
  rw [List.append_assoc]
  exact (indexes_perm inner).append_left _

theorem Laid.takes (laid : Laid file start items entries stop) : Takes start stop (entries.flatMap Entry.indexes) := by
  induction laid with
  | done => exact Takes.none _
  | gap between after ih => exact ih
  | binding inside ends after ih => exact ih
  | declaration starts inside ends named number after ih =>
    rw [List.flatMap_cons, Entry.indexes, number]
    exact (Takes.one _).append ih
  | ruleset starts inside places numbers within after ihBody ih =>
    rw [List.flatMap_cons, Entry.indexes]
    exact (ruleset_takes numbers ihBody).append ih

theorem Laid.before (laid : Laid file start items entries stop) : entries.Pairwise Entry.Before := by
  have behind {first middle stop : Nat} {entry : Entry} {items : List Lexeme} {entries : List Entry}
      (own : Takes first middle entry.indexes) (after : Laid file middle items entries stop) :
      ∀ later ∈ entries, entry.Before later := fun later isLater i isOwn j inLater =>
    Nat.lt_of_lt_of_le (own.between isOwn).2 (after.takes.between (List.mem_flatMap.mpr ⟨later, isLater, inLater⟩)).1
  induction laid with
  | done => exact .nil
  | gap between after ih => exact ih
  | binding inside ends after ih => exact ih
  | declaration starts inside ends named number after ih =>
    subst number
    exact List.pairwise_cons.mpr ⟨behind (Takes.one _) after, ih⟩
  | ruleset starts inside places numbers within after ihBody ih =>
    exact List.pairwise_cons.mpr ⟨behind (ruleset_takes numbers within.takes) after, ih⟩

theorem Laid.under {outer : List Ruleset} {last : Ruleset} (laid : Laid file start items entries stop)
    (chain : Chain (rulesetsOf entries) outer last) : ∃ first body inner middle,
      last.selectors.map WrittenSelector.index = List.range' first last.selectors.length ∧
      Laid file (first + last.selectors.length) body inner middle ∧
      last.declarations = declarationsOf inner ∧ last.children = rulesetsOf inner := by
  induction laid generalizing outer with
  | done =>
    cases chain with
    | here member => cases member
    | under member inside => cases member
  | gap between after ih => exact ih chain
  | binding inside ends after ih => exact ih chain
  | declaration starts inside ends named number after ih => exact ih chain
  | ruleset starts inside places numbers within after ihBody ih =>
    cases chain with
    | here member =>
      rcases List.mem_cons.mp member with rfl | isLater
      · exact ⟨_, _, _, _, numbers, within, rfl, rfl⟩
      · exact ih (.here isLater)
    | under member inside =>
      rcases List.mem_cons.mp member with rfl | isLater
      · exact ihBody inside
      · exact ih (.under isLater inside)

end laid

/-- What of a statement is read so far, as written. -/
def Pending.written : Pending → List Lexeme
  | .idle => []
  | .variable name items line => .leaf (.atWord name) line :: items.reverse
  | .statement items _ => items.reverse

def Pending.IsOpen : Pending → Prop
  | .idle => True
  | .variable _ items _ => ∀ item ∈ items, item.isToken .semicolon = false
  | .statement items line => ∃ first rest, items.reverse = first :: rest ∧ first.line = line ∧ startsStatement first ∧
      ∀ item ∈ rest, staysInStatement item

section reading
variable {file : String} {pending : Pending} {item : Lexeme} {items rest : List Lexeme} {start middle stop : Numbering}
  {fallback : Place} {parts : List (List Lexeme)} {selectors : List WrittenSelector}

theorem startsStatement_of (notBinding : ∀ name line, item ≠ .leaf (.atWord name) line) (notBlank : item.isBlank = false)
    (stays : staysInStatement item) : startsStatement item := by
  unfold startsStatement
  split
  · exact absurd rfl (notBinding _ _)
  · rw [notBlank, stays]
    rfl

theorem push_idle (stays : staysInStatement item) :
    (∃ name line, item = .leaf (.atWord name) line ∧ Pending.idle.push item = .variable name [] line) ∨
      (item.isBlank ∧ Pending.idle.push item = .idle) ∨
      (startsStatement item ∧ Pending.idle.push item = .statement [item] item.line) := by
  unfold Pending.push
  dsimp only
  split
  · exact Or.inl ⟨_, _, rfl, rfl⟩
  · rename_i notBinding
    cases blank : item.isBlank with
    | true => exact Or.inr (Or.inl ⟨rfl, rfl⟩)
    | false => exact Or.inr (Or.inr ⟨startsStatement_of notBinding blank stays, rfl⟩)

theorem push_laid (item : Lexeme) (isOpen : pending.IsOpen) (notSemicolon : item.isToken .semicolon = false)
    (stays : staysInStatement item ∨ pending.head? item.line = none) : (pending.push item).IsOpen ∧
      ∀ {here upTo : Nat} {rest : List Lexeme} {entries : List Entry},
        Laid file here ((pending.push item).written ++ rest) entries upTo →
          Laid file here (pending.written ++ item :: rest) entries upTo := by
  rcases pending with _ | ⟨name, items, line⟩ | ⟨items, line⟩
  · rcases push_idle (stays.resolve_right (Option.some_ne_none _)) with
      ⟨name, line, rfl, pushed⟩ | ⟨blank, pushed⟩ | ⟨starts, pushed⟩
    · rw [pushed]
      exact ⟨List.forall_mem_nil _, fun laid => laid⟩
    · rw [pushed]
      exact ⟨trivial, fun laid => .gap (by simp [blank]) laid⟩
    · rw [pushed]
      exact ⟨⟨item, [], rfl, rfl, starts, List.forall_mem_nil _⟩, fun laid => laid⟩
  · refine ⟨List.forall_mem_cons.mpr ⟨notSemicolon, isOpen⟩, fun laid => ?_⟩
    simpa [Pending.push, Pending.written] using laid
  · obtain ⟨first, others, split, place, starts, inside⟩ := isOpen
    refine ⟨⟨first, others ++ [item], by simp [split], place, starts, ?_⟩, fun laid => ?_⟩
    · exact List.forall_mem_append.mpr ⟨inside, by simpa using stays.resolve_right (Option.some_ne_none _)⟩
    · simpa [Pending.push, Pending.written] using laid

theorem readDeclaration_written {place : Place} {declaration : Declaration}
    (ran : readDeclaration place items start = .ok (declaration, stop)) : IsNamed items place declaration ∧
      declaration.index = start.nextIndex ∧ stop.nextIndex = start.nextIndex + 1 := by
  obtain ⟨stops, number⟩ := (readDeclaration_takes ran).1
  refine ⟨?_, by simpa using number, stops⟩
  unfold readDeclaration at ran
  dsimp only at ran
  split at ran
  · cases ran
  · split at ran
    · cases ran
    · obtain ⟨value, middle, readValue, ran⟩ := bind_ok ran
      obtain ⟨index, last, taken, ran⟩ := bind_ok ran
      obtain ⟨isNamed, rfl⟩ := pure_ok ran
      have same : declaration.index = index := by rw [isNamed, Declaration.ofName_eq]
      exact ⟨value, by rw [same]; exact isNamed⟩

theorem endStatement_laid {add : Block → Block} {block : Block} {entries : List Entry} {upTo : Nat} (isOpen : pending.IsOpen)
    (ran : endStatement file pending start = .ok (add, middle)) (ends : Ends rest)
    (after : Laid file middle.nextIndex rest entries upTo) (declarations : block.declarations = declarationsOf entries)
    (rulesets : block.rulesets = rulesetsOf entries) :
    ∃ entries, Laid file start.nextIndex (pending.written ++ rest) entries upTo ∧
      (add block).declarations = declarationsOf entries ∧ (add block).rulesets = rulesetsOf entries := by
  rcases pending with _ | ⟨name, items, line⟩ | ⟨items, line⟩
  · obtain ⟨rfl, rfl⟩ := pure_ok ran
    exact ⟨entries, after, declarations, rulesets⟩
  · obtain ⟨declared, ⟨⟨next, -⟩, -, -⟩, adds⟩ := endStatement_numbered ran
    obtain ⟨entry, last, read, ran⟩ := bind_ok ran
    obtain ⟨rfl, rfl⟩ := pure_ok ran
    have nothing : declared = [] := by simpa using (adds ⟨[], [], []⟩).1
    rw [nothing, List.map_nil, List.length_nil, Nat.add_zero] at next
    exact ⟨entries, .binding (by simpa [Pending.IsOpen] using isOpen) ends (next ▸ after), declarations, rulesets⟩
  · obtain ⟨declaration, last, read, ran⟩ := bind_ok ran
    obtain ⟨rfl, rfl⟩ := pure_ok ran
    obtain ⟨first, others, split, rfl, starts, inside⟩ := isOpen
    obtain ⟨named, number, next⟩ := readDeclaration_written read
    rw [split] at named
    refine ⟨.declaration declaration :: entries, ?_, by simp [declarations], by simp [rulesets]⟩
    rw [Pending.written, split]
    exact .declaration starts inside ends named number (next ▸ after)

theorem readSelectors_written (ran : readSelectors fallback parts start = .ok (selectors, stop)) :
    selectors.map WrittenSelector.place = parts.map (selectorPlace fallback) ∧
      selectors.map WrittenSelector.index = List.range' start.nextIndex selectors.length ∧
      stop.nextIndex = start.nextIndex + selectors.length := by
  induction parts generalizing start selectors with
  | nil =>
    obtain ⟨rfl, rfl⟩ := pure_ok ran
    exact ⟨rfl, rfl, rfl⟩
  | cons part rest ih =>
    obtain ⟨selector, middle, first, ran⟩ := bind_ok ran
    obtain ⟨others, last, readRest, ran⟩ := bind_ok ran
    obtain ⟨rfl, rfl⟩ := pure_ok ran
    obtain ⟨places, numbers, stops⟩ := ih readRest
    obtain ⟨⟨next, number⟩, -⟩ := readSelector_takes first
    have place : selector.place = selectorPlace fallback part := by
      unfold readSelector at first
      obtain ⟨parts, before, readParts, first⟩ := bind_ok first
      split at first
      · cases first
      · obtain ⟨index, behind, taken, first⟩ := bind_ok first
        obtain ⟨rfl, rfl⟩ := pure_ok first
        rfl
    simp only [List.length_cons, List.length_nil] at next number
    refine ⟨by simp [place, places], ?_, by simp only [List.length_cons]; omega⟩
    have number : selector.index = start.nextIndex := by simpa using number
    rw [List.map_cons, numbers, number, next]
    rfl

theorem readBlock_laid {block : Block} (isOpen : pending.IsOpen)
    (ran : readBlock file pending items start = .ok (block, stop)) :
    ∃ entries, Laid file start.nextIndex (pending.written ++ items) entries stop.nextIndex ∧
      block.declarations = declarationsOf entries ∧ block.rulesets = rulesetsOf entries := by
  -- a lexeme goes from what is read to what is pending until it ends the statement, which then is laid out as a whole
  fun_induction readBlock file pending items generalizing start stop block with
  | case1 pending =>
    obtain ⟨add, middle, ends, ran⟩ := bind_ok ran
    obtain ⟨rfl, rfl⟩ := pure_ok ran
    exact endStatement_laid isOpen ends (by simp [Ends]) .done rfl rfl
  | case2 pending body line rest head firstLine found ihBody ihRest =>
    obtain ⟨selectors, middle, readHead, ran⟩ := bind_ok ran
    obtain ⟨inner, last, readBody, ran⟩ := bind_ok ran
    obtain ⟨after, final, readRest, ran⟩ := bind_ok ran
    obtain ⟨rfl, rfl⟩ := pure_ok ran
    obtain ⟨within, laidBody, declarations, rulesets⟩ := ihBody trivial readBody
    obtain ⟨entries, laidRest, declarationsAfter, rulesetsAfter⟩ := ihRest trivial readRest
    obtain ⟨places, numbers, next⟩ := readSelectors_written readHead
    rcases pending with _ | ⟨name, items, line⟩ | ⟨items, line⟩
    · -- braces without a head would need a selector of nothing
      obtain ⟨rfl, rfl⟩ := Prod.mk.inj (Option.some.inj found)
      cases readHead
    · cases found
    · obtain ⟨rfl, rfl⟩ := Prod.mk.inj (Option.some.inj found)
      obtain ⟨first, others, split, rfl, starts, inside⟩ := isOpen
      rw [split] at places
      refine ⟨.ruleset (.mk selectors inner.declarations inner.rulesets ⟨file, first.line⟩) :: entries, ?_,
        by simp [declarationsAfter], by simp [rulesetsAfter]⟩
      rw [Pending.written, split, declarations, rulesets]
      exact .ruleset starts inside places numbers (next ▸ laidBody) laidRest
  | case3 pending body line rest found ih =>
    obtain ⟨stillOpen, laid⟩ := push_laid (.group .curly body line) isOpen rfl (Or.inr found)
    obtain ⟨entries, laidRest, lists⟩ := ih stillOpen ran
    exact ⟨entries, laid laidRest, lists⟩
  | case4 pending item rest notGroup isSemicolon ih =>
    obtain ⟨add, middle, ends, ran⟩ := bind_ok ran
    obtain ⟨after, last, readRest, ran⟩ := bind_ok ran
    obtain ⟨rfl, rfl⟩ := pure_ok ran
    obtain ⟨entries, laid, declarations, rulesets⟩ := ih trivial readRest
    exact endStatement_laid isOpen ends (by simp [Ends, isSemicolon]) (.gap (by simp [isSemicolon]) laid) declarations rulesets
  | case5 pending item rest notGroup notSemicolon ih =>
    have stays : staysInStatement item := by
      cases item with
      | leaf token line => simpa [staysInStatement, Lexeme.isToken] using notSemicolon
      | group bracket items line =>
        have notCurly : bracket ≠ .curly := fun isCurly => notGroup items line (isCurly ▸ rfl)
        simpa [staysInStatement] using notCurly
    obtain ⟨stillOpen, laid⟩ := push_laid item isOpen (by simpa using notSemicolon) (Or.inl stays)
    obtain ⟨entries, laidRest, lists⟩ := ih stillOpen ran
    exact ⟨entries, laid laidRest, lists⟩

end reading

/-- The selectors of a ruleset have consecutive numbers, from left to right, and what is written in its body has the numbers
after them, in the order written. -/
def NumberedAsWritten (file : String) (ruleset : Ruleset) : Prop :=
  ∃ first body entries stop, ruleset.selectors.map WrittenSelector.index = List.range' first ruleset.selectors.length ∧
    Laid file (first + ruleset.selectors.length) body entries stop ∧
    ruleset.declarations = declarationsOf entries ∧ ruleset.children = rulesetsOf entries ∧ entries.Pairwise Entry.Before ∧
    ∀ index ∈ ruleset.declarations.map Declaration.index ++ Ruleset.indexesAll ruleset.children,
      first + ruleset.selectors.length ≤ index

theorem Laid.numberedAsWritten {file : String} {start stop : Nat} {items : List Lexeme} {entries : List Entry}
    {outer : List Ruleset} {last : Ruleset} (laid : Laid file start items entries stop)
    (chain : Chain (rulesetsOf entries) outer last) : NumberedAsWritten file last := by
  obtain ⟨first, body, inner, middle, numbers, within, declarations, children⟩ := laid.under chain
  refine ⟨first, body, inner, middle, numbers, within, declarations, children, within.before, fun index isInside => ?_⟩
  rw [declarations, children] at isInside
  exact (within.takes.between ((indexes_perm inner).mem_iff.mp isInside)).1

end Reader

namespace Ruleset

mutual
theorem length_indexes : ∀ ruleset : Ruleset, ruleset.indexes.length = ruleset.span
  | .mk selectors declarations children place => by
    simp [indexes, span, length_indexesAll children, Nat.add_assoc]

theorem length_indexesAll : ∀ rulesets : List Ruleset, (indexesAll rulesets).length = spanAll rulesets
  | [] => rfl
  | ruleset :: rest => by rw [indexesAll, spanAll, List.length_append, length_indexes ruleset, length_indexesAll rest]
end

end Ruleset

namespace Sheet
variable {file css : String} {start stop : Reader.Numbering} {sheet : Sheet}

theorem read_span (ran : Sheet.read file css start = .ok (sheet, stop)) :
    stop.nextIndex = start.nextIndex + sheet.indexSpan ∧
      (Ruleset.indexesAll sheet.rulesets).Perm (List.range' start.nextIndex sheet.indexSpan) := by
  rw [indexSpan, ← Ruleset.length_indexesAll]
  exact (read_block ran).takes

theorem read_laid (ran : Sheet.read file css start = .ok (sheet, stop)) :
    ∃ entries, Reader.Laid file start.nextIndex (Lexeme.ofChars (LineComment.strip css.toList)) entries stop.nextIndex ∧
      Reader.declarationsOf entries = [] ∧ Reader.rulesetsOf entries = sheet.rulesets := by
  change Reader.readSheet file css start = .ok (sheet, stop) at ran
  unfold Reader.readSheet at ran
  obtain ⟨block, middle, readBlock, ran⟩ := Reader.bind_ok ran
  have isOpen : Reader.Pending.idle.IsOpen := trivial
  obtain ⟨entries, laid, declarations, rulesets⟩ := Reader.readBlock_laid isOpen readBlock
  obtain ⟨bindings, declared, rules⟩ := block
  cases declared with
  | nil =>
    obtain ⟨rfl, rfl⟩ := Reader.pure_ok ran
    exact ⟨entries, laid, declarations.symm, rulesets.symm⟩
  | cons loose rest => cases ran

end Sheet

namespace Stylesheets

theorem readFrom_takes (start : Numbering) (sources : List Source) :
    Takes start.nextIndex (after start sources).nextIndex
      ((readFrom start sources).flatMap fun sheet => Ruleset.indexesAll sheet.rulesets) := by
  induction sources generalizing start with
  | nil => exact Takes.none _
  | cons source rest ih =>
    rw [after, readFrom]
    cases ran : Sheet.read source.name source.css start with
    | error error => exact ih start
    | ok result => exact (Sheet.read_block ran).takes.append (ih result.2)

/-- The indexes of all selectors and declarations are the numbers from zero on, each once, as many as the spans of the sheets
say. Each sheet that can be read starts where those before it end, goes as far as its span says and is numbered in the order
written: what is written later has the greater numbers, and in a ruleset the selectors come before the body. A source that
cannot be read leaves all numbers as they are without it. -/
theorem read_numbered (sources : List Source) (source : Source) (back : List Source) :
    let base := after ⟨0, 0⟩ sources
    ((read sources).flatMap fun sheet => Ruleset.indexesAll sheet.rulesets).Perm
      (List.range ((read sources).map Sheet.indexSpan).sum) ∧
    base.nextIndex = ((read sources).map Sheet.indexSpan).sum ∧
    match Sheet.read source.name source.css base with
    | .ok (sheet, next) =>
      read (sources ++ source :: back) = read sources ++ sheet :: readFrom next back ∧
      next.nextIndex = base.nextIndex + sheet.indexSpan ∧
      (Ruleset.indexesAll sheet.rulesets).Perm (List.range' base.nextIndex sheet.indexSpan) ∧
      ∃ entries, Laid source.name base.nextIndex (Lexeme.ofChars (LineComment.strip source.css.toList)) entries next.nextIndex ∧
        declarationsOf entries = [] ∧ rulesetsOf entries = sheet.rulesets ∧ entries.Pairwise Entry.Before ∧
        ∀ outer last, Chain sheet.rulesets outer last → NumberedAsWritten source.name last
    | .error _ => read (sources ++ source :: back) = read (sources ++ back) := by
  intro base
  have spans : ((read sources).flatMap fun sheet => Ruleset.indexesAll sheet.rulesets).length =
      ((read sources).map Sheet.indexSpan).sum := by
    simp only [List.length_flatMap, Ruleset.length_indexesAll]
    rfl
  obtain ⟨count, perm⟩ := readFrom_takes ⟨0, 0⟩ sources
  change _ = 0 + ((read sources).flatMap _).length at count
  change ((read sources).flatMap _).Perm (List.range' 0 ((read sources).flatMap _).length) at perm
  rw [spans] at count perm
  refine ⟨List.range_eq_range' ▸ perm, by simpa using count, ?_⟩
  have split := readFrom_append ⟨0, 0⟩ sources (source :: back)
  rw [readFrom] at split
  cases ran : Sheet.read source.name source.css base with
  | error error =>
    rw [ran] at split
    exact split.trans (readFrom_append ⟨0, 0⟩ sources back).symm
  | ok result =>
    obtain ⟨sheet, next⟩ := result
    rw [ran] at split
    obtain ⟨entries, laid, noDeclarations, rulesets⟩ := Sheet.read_laid ran
    obtain ⟨stops, own⟩ := Sheet.read_span ran
    exact ⟨split, stops, own, entries, laid, noDeclarations, rulesets, laid.before,
      fun outer last chain => laid.numberedAsWritten (rulesets ▸ chain)⟩

end Stylesheets
end MapStyle
