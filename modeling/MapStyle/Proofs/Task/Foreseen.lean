import MapStyle.Proofs.Task.Replay
/-!
Foreseen answers. Where expressions with one id have one text and all fonts are registered already, it does not matter
what was asked before: a task that keeps to such expressions and fonts comes to the same result in every state.
-/
namespace MapStyle

/-- What the tasks of a compilation may ask for: the texts of `asked` expressions, and the registered `fonts`. -/
structure Foresight where
  scope : Scope
  asked : Expression → Prop
  fonts : FontSets
  one : ∀ a b, asked a → asked b → a.id = b.id → scope.evaluate a = scope.evaluate b

variable {foresight : Foresight} {shared : Shared} {expr : Expression}

/-- The texts that are stored are those of their expressions, and the fonts are the foreseen ones. -/
structure Foresight.Settled (foresight : Foresight) (shared : Shared) : Prop where
  fonts : shared.fonts = foresight.fonts
  values : ∀ expr, foresight.asked expr → ∀ text, shared.values.get? expr.id = some text →
    foresight.scope.evaluate expr = .ok text

theorem ValueCache.store_cases {cache : ValueCache} {id other : Nat} {result : Except StyleError String} {text : String}
    (found : (cache.store id result).get? other = some text) :
    cache.get? other = some text ∨ other = id ∧ result = .ok text := by
  cases result with
  | error error => exact Or.inl found
  | ok stored =>
    rw [store, insert] at found
    split at found
    · exact Or.inl found
    · rw [get?, List.lookup_cons] at found
      split at found
      · rename_i same
        obtain rfl := Option.some.inj found
        exact Or.inr ⟨beq_iff_eq.mp same, rfl⟩
      · exact Or.inl found

namespace Foresight.Settled

theorem store (settled : foresight.Settled shared) (isAsked : foresight.asked expr) :
    foresight.Settled { shared with values := shared.values.store expr.id (foresight.scope.evaluate expr) } where
  fonts := settled.fonts
  values := by
    intro other isOther text found
    rcases ValueCache.store_cases found with isOld | ⟨same, evaluated⟩
    · exact settled.values other isOther text isOld
    · rw [foresight.one other expr isOther isAsked same, evaluated]

theorem evaluate (settled : foresight.Settled shared) (isAsked : foresight.asked expr) :
    (shared.values.evaluate foresight.scope expr).1 = foresight.scope.evaluate expr ∧
      foresight.Settled { shared with values := (shared.values.evaluate foresight.scope expr).2 } := by
  unfold ValueCache.evaluate
  split
  · rename_i text found
    exact ⟨(settled.values expr isAsked text found).symm, settled⟩
  · exact ⟨rfl, settled.store isAsked⟩

theorem getOrCreate (settled : foresight.Settled shared) {faces : String} {set : FontSet}
    (registered : foresight.fonts.find? faces = some set) : shared.fonts.getOrCreate faces = (set, shared.fonts) := by
  apply FontSets.getOrCreate_again
  rw [settled.fonts, registered]

end Foresight.Settled

namespace Task
variable {α β : Type}

/-- A task that asks for nothing unforeseen and comes to `result`. -/
inductive Foreseen (foresight : Foresight) : Task α → α → Prop where
  | done (result : α) : Foreseen foresight (.done result) result
  | value {expr : Expression} {next : Except StyleError String → Task α} {result : α} (isAsked : foresight.asked expr)
      (rest : Foreseen foresight (next (foresight.scope.evaluate expr)) result) : Foreseen foresight (.value expr next) result
  | fontSet {faces : String} {set : FontSet} {next : FontSet → Task α} {result : α}
      (registered : foresight.fonts.find? faces = some set) (rest : Foreseen foresight (next set) result) :
      Foreseen foresight (.fontSet faces next) result

theorem Foreseen.bind {task : Task α} {next : α → Task β} {a : α} {b : β} (first : Foreseen foresight task a)
    (rest : Foreseen foresight (next a) b) : Foreseen foresight (task >>= next) b := by
  induction first with
  | done result => exact rest
  | value isAsked _ ih => exact .value isAsked (ih rest)
  | fontSet registered _ ih => exact .fontSet registered (ih rest)

theorem Foreseen.run {task : Task α} {result : α} (foreseen : Foreseen foresight task result)
    (settled : foresight.Settled shared) :
    (task.run foresight.scope shared).1 = result ∧ foresight.Settled (task.run foresight.scope shared).2 := by
  induction foreseen generalizing shared with
  | done result => exact ⟨rfl, settled⟩
  | value isAsked _ ih =>
    obtain ⟨same, still⟩ := settled.evaluate isAsked
    simp only [Task.run, same]
    exact ih still
  | fontSet registered _ ih =>
    rw [Task.run, settled.getOrCreate registered]
    exact ih settled

end Task

namespace Job
variable {α β : Type}

def Foreseen (foresight : Foresight) (job : Job α) (post : α → Prop) : Prop :=
  ∃ result, Task.Foreseen foresight (ExceptT.run job) result ∧ ∀ a, result = .ok a → post a

namespace Foreseen
variable {post : α → Prop}

theorem bind {job : Job α} {next : α → Job β} {last : β → Prop} (first : Foreseen foresight job post)
    (rest : ∀ a, post a → Foreseen foresight (next a) last) : Foreseen foresight (job >>= next) last := by
  obtain ⟨result, ran, meets⟩ := first
  cases result with
  | error error => exact ⟨.error error, Task.Foreseen.bind ran (.done _), by simp⟩
  | ok a =>
    obtain ⟨final, ranRest, meetsRest⟩ := rest a (meets a rfl)
    exact ⟨final, Task.Foreseen.bind ran ranRest, meetsRest⟩

theorem pure {a : α} (meets : post a) : Foreseen foresight (Pure.pure a : Job α) post := by
  refine ⟨.ok a, .done _, fun b same => ?_⟩
  obtain rfl := Except.ok.inj same
  exact meets

theorem throw (error : StyleError) : Foreseen foresight (MonadExcept.throw error : Job α) post :=
  ⟨.error error, .done _, by simp⟩

theorem ofExcept (result : Except StyleError α) : Foreseen foresight (Job.ofExcept result) fun a => result = .ok a :=
  ⟨result, .done _, fun _ same => same⟩

theorem lift {task : Task α} {a : α} (ran : Task.Foreseen foresight task a) :
    Foreseen foresight (ExceptT.lift task) fun b => a = b :=
  ⟨.ok a, Task.Foreseen.bind ran (.done _), fun _ same => Except.ok.inj same⟩

theorem value (isAsked : foresight.asked expr) :
    Foreseen foresight (Job.value expr) fun text => foresight.scope.evaluate expr = .ok text :=
  ⟨foresight.scope.evaluate expr, .value isAsked (.done _), fun _ same => same⟩

theorem fontSet {faces : String} (registered : (foresight.fonts.find? faces).isSome) :
    Foreseen foresight (Job.fontSet faces) fun _ => True := by
  obtain ⟨set, found⟩ := Option.isSome_iff_exists.mp registered
  exact ⟨.ok set, .fontSet found (.done _), fun _ _ => trivial⟩

end Foreseen
end Job
end MapStyle
