import MapStyle.Proofs.Task.Foreseen
import MapStyle.Proofs.Value.Filling
/-!
Evaluation as substitution. A value unfolds to the tree that has the unfolded definition in the place of each variable;
where no chain of variables within variables is too long and none of them is undefined, evaluating comes to the text of
that tree. Expressions that are looked up in a cache first have the texts they have when each is evaluated by itself.
-/
namespace MapStyle
namespace Scope
variable {scope : Scope} {value tree : Value} {place : Place} {fuel : Nat}

/-- A chain of `length` variables, each one in the definition of the one before it, from a value to the last of them. -/
inductive Chain (scope : Scope) : Value → (length : Nat) → (last : String) → Prop where
  | here {value : Value} {name : String} (isIn : name ∈ value.names) : Chain scope value 1 name
  | through {value : Value} {name : String} {expr : Expression} {length : Nat} {last : String} (isIn : name ∈ value.names)
      (defined : scope.get? name = some expr) (rest : Chain scope expr.value length last) :
      Chain scope value (length + 1) last

/-- The tree that is left when each variable of a value is replaced by the unfolded value of its definition. -/
inductive Unfolds (scope : Scope) : Value → (tree : Value) → Prop where
  | fill {value : Value} {definition : String → Expression} {tree : String → Value}
      (defined : ∀ name ∈ value.names, scope.get? name = some (definition name))
      (unfolded : ∀ name ∈ value.names, Unfolds scope (definition name).value (tree name)) :
      Unfolds scope value (value.fill tree)

theorem Unfolds.closed (unfolds : scope.Unfolds value tree) : tree.names = [] := by
  induction unfolds with
  | fill defined unfolded ih =>
    exact Value.names_fill _ ih

theorem Unfolds.unique {other : Value} (unfolds : scope.Unfolds value tree) (otherwise : scope.Unfolds value other) :
    other = tree := by
  induction unfolds generalizing other with
  | fill defined unfolded ih =>
    cases otherwise with
    | fill definedOther others =>
      refine Value.fill_congr _ fun name isIn => ih name isIn ?_
      rw [Option.some.inj ((defined name isIn).symm.trans (definedOther name isIn))]
      exact others name isIn

def Bounded (scope : Scope) (value : Value) (bound : Nat) : Prop :=
  ∀ length last, scope.Chain value length last → (scope.get? last).isSome ∧ length ≤ bound

theorem bounded_zero : scope.Bounded value 0 ↔ value.names = [] := by
  constructor
  · intro bounded
    rw [List.eq_nil_iff_forall_not_mem]
    intro name isIn
    exact absurd (bounded 1 name (.here isIn)).2 (by decide)
  · intro noNames length last chain
    cases chain <;> simp_all

theorem bounded_succ {bound : Nat} :
    scope.Bounded value (bound + 1) ↔
      ∀ name ∈ value.names, ∃ expr, scope.get? name = some expr ∧ scope.Bounded expr.value bound := by
  constructor
  · intro bounded name isIn
    obtain ⟨expr, found⟩ := Option.isSome_iff_exists.mp (bounded 1 name (.here isIn)).1
    refine ⟨expr, found, fun length last chain => ?_⟩
    obtain ⟨defined, short⟩ := bounded (length + 1) last (.through isIn found chain)
    exact ⟨defined, by omega⟩
  · intro each length last chain
    cases chain with
    | here isIn =>
      obtain ⟨expr, found, -⟩ := each last isIn
      exact ⟨by simp [found], by omega⟩
    | through isIn defined rest =>
      obtain ⟨expr, found, bounded⟩ := each _ isIn
      obtain rfl : expr = _ := Option.some.inj (found.symm.trans defined)
      obtain ⟨isDefined, short⟩ := bounded _ _ rest
      exact ⟨isDefined, by omega⟩

theorem expand_zero (name : String) : (scope.expand place 0 name).isOk = false := by
  unfold expand
  split <;> rfl

theorem expand_succ (name : String) :
    (scope.expand place (fuel + 1) name).isOk ↔
      ∃ expr, scope.get? name = some expr ∧ (expr.value.render (scope.expand place fuel)).isOk := by
  rw [expand]
  cases scope.get? name <;> simp [Except.isOk, Except.toBool]

theorem render_bounded : (value.render (scope.expand place fuel)).isOk ↔ scope.Bounded value fuel := by
  induction fuel generalizing value with
  | zero => simp [Value.render_isOk, expand_zero, bounded_zero, List.eq_nil_iff_forall_not_mem]
  | succ fuel ih => simp only [Value.render_isOk, expand_succ, bounded_succ, ih]

theorem unfolds_of_names {texts : String → Except StyleError String}
    (each : ∀ name ∈ value.names, ∃ expr tree, scope.get? name = some expr ∧ scope.Unfolds expr.value tree ∧
      ∀ expand, tree.render expand = texts name) :
    ∃ tree, scope.Unfolds value tree ∧ ∀ expand, tree.render expand = value.render texts := by
  have : Nonempty Expression := ⟨⟨0, default, ⟨"", 0⟩⟩⟩
  choose! definition tree defined unfolded rendered using each
  refine ⟨value.fill tree, .fill defined unfolded, fun expand => ?_⟩
  rw [Value.render_fill]
  exact Value.render_congr value fun name isIn => rendered name isIn expand

theorem render_unfolds (isOk : (value.render (scope.expand place fuel)).isOk) :
    ∃ tree, scope.Unfolds value tree ∧ ∀ expand, tree.render expand = value.render (scope.expand place fuel) := by
  induction fuel generalizing value with
  | zero => exact unfolds_of_names (by simp [bounded_zero.mp (render_bounded.mp isOk)])
  | succ fuel ih =>
    refine unfolds_of_names fun name isIn => ?_
    obtain ⟨expr, found, within⟩ := expand_succ name |>.mp ((Value.render_isOk value).mp isOk name isIn)
    obtain ⟨tree, unfolded, same⟩ := ih within
    exact ⟨expr, tree, found, unfolded, fun expand => by rw [same, Scope.expand, found]⟩

/-- A failure tells of a variable at the end of a chain, and stands where the evaluated value does. -/
inductive FailsAt (scope : Scope) (value : Value) (bound : Nat) (place : Place) : StyleError → Prop where
  | undefined {length : Nat} {name : String} (reached : scope.Chain value length name) (short : length ≤ bound + 1)
      (missing : scope.get? name = none) : FailsAt scope value bound place (.undefinedVariable name place)
  | recursive {name : String} (long : scope.Chain value (bound + 1) name) :
      FailsAt scope value bound place (.flawed (.recursiveVariable name) place)

theorem FailsAt.place_eq {error : StyleError} (fails : scope.FailsAt value fuel place error) : error.place? = some place := by
  cases fails <;> rfl

theorem render_fails {error : StyleError} (failed : value.render (scope.expand place fuel) = .error error) :
    scope.FailsAt value fuel place error := by
  induction fuel generalizing value with
  | zero =>
    obtain ⟨name, isIn, wrong⟩ := Value.render_error value failed
    rw [expand] at wrong
    split at wrong
    · obtain rfl := Except.error.inj wrong
      exact .undefined (.here isIn) (by omega) (by assumption)
    · obtain rfl := Except.error.inj wrong
      exact .recursive (.here isIn)
  | succ fuel ih =>
    obtain ⟨name, isIn, wrong⟩ := Value.render_error value failed
    rw [expand] at wrong
    split at wrong
    · obtain rfl := Except.error.inj wrong
      exact .undefined (.here isIn) (by omega) (by assumption)
    · rename_i expr found
      cases ih wrong with
      | undefined reached short missing => exact .undefined (.through isIn found reached) (by omega) missing
      | recursive long => exact .recursive (.through isIn found long)

end Scope

namespace ValueCache
variable {scope : Scope} {cache : ValueCache} {past : List Expression} {expr : Expression}

def evaluateAll (scope : Scope) : List Expression → ValueCache → List (Except StyleError String) × ValueCache
  | [], cache => ([], cache)
  | expr :: rest, cache =>
    let (result, next) := cache.evaluate scope expr
    let (results, last) := evaluateAll scope rest next
    (result :: results, last)

def Remembers (cache : ValueCache) (scope : Scope) (past : List Expression) : Prop :=
  ∀ id text, cache.get? id = some text ↔ ∃ expr ∈ past, expr.id = id ∧ scope.evaluate expr = .ok text

theorem get?_store (absent : cache.get? expr.id = none) (id : Nat) (text : String) :
    (cache.store expr.id (scope.evaluate expr)).get? id = some text ↔
      cache.get? id = some text ∨ expr.id = id ∧ scope.evaluate expr = .ok text := by
  constructor
  · intro found
    exact (store_cases found).imp_right fun ⟨same, evaluated⟩ => ⟨same.symm, evaluated⟩
  · rintro (known | ⟨rfl, evaluated⟩)
    · cases scope.evaluate expr with
      | error error => exact known
      | ok text => exact insert_keeps known
    · rw [evaluated, store, insert, absent]
      simp [get?]

theorem Remembers.evaluate (remembers : cache.Remembers scope past)
    (same : ∀ other ∈ past, other.id = expr.id → other = expr) :
    (cache.evaluate scope expr).1 = scope.evaluate expr ∧
      (cache.evaluate scope expr).2.Remembers scope (past ++ [expr]) := by
  unfold ValueCache.evaluate
  split
  · rename_i text found
    obtain ⟨other, isPast, sameId, evaluated⟩ := (remembers expr.id text).mp found
    obtain rfl := same other isPast sameId
    refine ⟨evaluated.symm, fun id text => (remembers id text).trans ?_⟩
    simp only [List.mem_append, List.mem_singleton]
    exact ⟨fun ⟨expr, isIn, rest⟩ => ⟨expr, Or.inl isIn, rest⟩, fun ⟨expr, isIn, rest⟩ =>
      ⟨expr, isIn.elim (fun isOld => isOld) (· ▸ isPast), rest⟩⟩
  · rename_i absent
    refine ⟨rfl, fun id text => (get?_store absent id text).trans ?_⟩
    rw [remembers id text]
    simp only [List.mem_append, List.mem_singleton, or_and_right, exists_or, exists_eq_left]

theorem Remembers.evaluateAll {exprs : List Expression} (remembers : cache.Remembers scope past)
    (same : ∀ a ∈ past ++ exprs, ∀ b ∈ past ++ exprs, a.id = b.id → a = b) :
    (evaluateAll scope exprs cache).1 = exprs.map scope.evaluate ∧
      (evaluateAll scope exprs cache).2.Remembers scope (past ++ exprs) := by
  induction exprs generalizing cache past with
  | nil =>
    rw [List.append_nil]
    exact ⟨rfl, remembers⟩
  | cons expr rest ih =>
    obtain ⟨result, next⟩ := remembers.evaluate fun other isPast sameId =>
      same other (List.mem_append_left _ isPast) expr (List.mem_append_right _ List.mem_cons_self) sameId
    obtain ⟨results, last⟩ := ih next (by simpa using same)
    refine ⟨?_, by simpa [ValueCache.evaluateAll] using last⟩
    rw [ValueCache.evaluateAll, List.map_cons, ← results, ← result]

end ValueCache

/-- Evaluating is substituting. A value has a text just if each of its chains ends in a defined variable after at most
`maxDepth` of them; the text is that of the one tree that the value unfolds to, which has no variables. A failure stands
where the evaluated value does, and is that of a variable that a chain leads to. Evaluations that share a cache come to
what each comes to by itself, in any order, and of their results the texts are stored. -/
theorem Scope.evaluate_substitutes (scope : Scope) :
    (∀ value place, (scope.evaluateAt value place).isOk ↔
      ∀ length last, scope.Chain value length last → (scope.get? last).isSome ∧ length ≤ 32) ∧
    (∀ value place text, scope.evaluateAt value place = .ok text →
      ∃ tree, scope.Unfolds value tree ∧ (∀ other, scope.Unfolds value other → other = tree) ∧ tree.names = [] ∧
        ∀ expand, tree.render expand = .ok text) ∧
    (∀ value place error, scope.evaluateAt value place = .error error →
      error.place? = some place ∧ scope.FailsAt value 32 place error) ∧
    ∀ exprs : List Expression, (∀ a ∈ exprs, ∀ b ∈ exprs, a.id = b.id → a = b) →
      (ValueCache.empty.evaluateAll scope exprs).1 = exprs.map scope.evaluate ∧
      ∀ id text, (ValueCache.empty.evaluateAll scope exprs).2.get? id = some text ↔
        ∃ expr ∈ exprs, expr.id = id ∧ scope.evaluate expr = .ok text := by
  refine ⟨fun value place => render_bounded, fun value place text evaluated => ?_, fun value place error failed => ?_,
    fun exprs same => ?_⟩
  · have isOk : (value.render (scope.expand place maxDepth)).isOk := by
      rw [← evaluateAt, evaluated]
      rfl
    obtain ⟨tree, unfolds, rendered⟩ := render_unfolds isOk
    exact ⟨tree, unfolds, fun other otherwise => unfolds.unique otherwise, unfolds.closed, fun expand =>
      (rendered expand).trans evaluated⟩
  · have fails := render_fails failed
    exact ⟨fails.place_eq, fails⟩
  · have fresh : ValueCache.empty.Remembers scope [] := by simp [ValueCache.Remembers, ValueCache.get?, ValueCache.empty]
    exact fresh.evaluateAll same

def Scope.knot : Scope where
  entries := [("here", ⟨1, .variable "there", ⟨"t.mss", 1⟩⟩), ("there", ⟨2, .variable "here", ⟨"t.mss", 2⟩⟩),
    ("line", ⟨3, .sequence [.variable "width", .keyword "round"], ⟨"t.mss", 3⟩⟩), ("width", ⟨4, .keyword "wide", ⟨"t.mss", 4⟩⟩)]

theorem Scope.evaluate_substitutes_knot :
    (∃ tree, Scope.knot.Unfolds (.variable "line") tree ∧ tree.names = [] ∧
      ∀ expand, tree.render expand = .ok "wide round") ∧
    Scope.knot.FailsAt (.variable "here") 32 ⟨"t.mss", 9⟩ (.flawed (.recursiveVariable "here") ⟨"t.mss", 9⟩) ∧
    (ValueCache.empty.evaluateAll Scope.knot [⟨5, .variable "line", ⟨"t.mss", 9⟩⟩, ⟨5, .variable "line", ⟨"t.mss", 9⟩⟩]).1 =
      [.ok "wide round", .ok "wide round"] := by
  obtain ⟨-, succeeds, fails, caches⟩ := Scope.evaluate_substitutes Scope.knot
  refine ⟨?_, (fails (.variable "here") ⟨"t.mss", 9⟩ _ (by rfl)).2, ?_⟩
  · obtain ⟨tree, unfolds, -, closed, rendered⟩ := succeeds (.variable "line") ⟨"t.mss", 9⟩ "wide round" (by rfl)
    exact ⟨tree, unfolds, closed, rendered⟩
  · exact (caches [⟨5, .variable "line", ⟨"t.mss", 9⟩⟩, ⟨5, .variable "line", ⟨"t.mss", 9⟩⟩] (by simp)).1

end MapStyle
