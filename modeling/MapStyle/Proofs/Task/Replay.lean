import MapStyle.Task
/-!
Running jobs again. What tasks share only grows, so that a job that succeeded gives the same answer whenever it is run
later.
-/
namespace MapStyle

section caches
variable {cache : ValueCache} {scope : Scope} {expr : Expression} {sets : FontSets} {faces : String}

theorem ValueCache.insert_keeps {id other : Nat} {text known : String} (found : cache.get? other = some known) :
    (cache.insert id text).get? other = some known := by
  unfold ValueCache.insert
  split
  · exact found
  · rename_i absent
    have apart : other ≠ id := by
      rintro rfl
      simp [found] at absent
    simpa [ValueCache.get?, List.lookup_cons, beq_eq_false_iff_ne.mpr apart] using found

theorem ValueCache.evaluate_keeps {other : Nat} {known : String} (found : cache.get? other = some known) :
    (cache.evaluate scope expr).2.get? other = some known := by
  unfold ValueCache.evaluate
  split
  · exact found
  · cases scope.evaluate expr with
    | ok text => exact insert_keeps found
    | error error => exact found

/-- A text that was found is found again. -/
theorem ValueCache.evaluate_stores {text : String} (found : (cache.evaluate scope expr).1 = .ok text) :
    (cache.evaluate scope expr).2.get? expr.id = some text := by
  unfold ValueCache.evaluate at found ⊢
  split at found
  · rename_i known _
    obtain rfl : known = text := Except.ok.inj found
    assumption
  · rename_i absent
    have evaluated : scope.evaluate expr = .ok text := found
    simp only [evaluated, ValueCache.store, ValueCache.insert, absent]
    simp [ValueCache.get?]

theorem ValueCache.evaluate_again {text : String} (found : cache.get? expr.id = some text) :
    cache.evaluate scope expr = (.ok text, cache) := by
  simp [ValueCache.evaluate, found]

theorem FontSets.getOrCreate_keeps {other : String} {known : FontSet} (found : sets.find? other = some known) :
    (sets.getOrCreate faces).2.find? other = some known := by
  unfold FontSets.getOrCreate
  split
  · exact found
  · simp only [FontSets.find?, List.lookup_append] at found ⊢
    simp [found]

theorem FontSets.getOrCreate_stores : (sets.getOrCreate faces).2.find? faces = some (sets.getOrCreate faces).1 := by
  unfold FontSets.getOrCreate
  split
  · assumption
  · rename_i absent
    simp only [FontSets.find?, List.lookup_append] at absent ⊢
    simp [absent]

theorem FontSets.getOrCreate_again {set : FontSet} (found : sets.find? faces = some set) :
    sets.getOrCreate faces = (set, sets) := by
  simp [FontSets.getOrCreate, found]

end caches

/-- Whatever is found in one state is found in the other. -/
structure Shared.Extends (shared later : Shared) : Prop where
  values : ∀ id text, shared.values.get? id = some text → later.values.get? id = some text
  fonts : ∀ faces set, shared.fonts.find? faces = some set → later.fonts.find? faces = some set

namespace Shared.Extends
variable {first second third : Shared}

theorem refl (shared : Shared) : shared.Extends shared := ⟨fun _ _ found => found, fun _ _ found => found⟩

theorem trans (before : first.Extends second) (after : second.Extends third) : first.Extends third where
  values id text found := after.values id text (before.values id text found)
  fonts faces set found := after.fonts faces set (before.fonts faces set found)

end Shared.Extends

theorem Task.run_extends {α : Type} (scope : Scope) (task : Task α) (shared : Shared) :
    shared.Extends (task.run scope shared).2 := by
  induction task generalizing shared with
  | done result => exact .refl shared
  | value expr next ih =>
    refine Shared.Extends.trans ?_ (ih _ _)
    exact ⟨fun _ _ found => ValueCache.evaluate_keeps found, fun _ _ found => found⟩
  | fontSet faces next ih =>
    refine Shared.Extends.trans ?_ (ih _ _)
    exact ⟨fun _ _ found => found, fun _ _ found => FontSets.getOrCreate_keeps found⟩

theorem Task.ran_extends {α : Type} {scope : Scope} {before after : Shared} {task : Task α} {a : α}
    (ran : task.run scope before = (a, after)) : before.Extends after := by
  have grown := task.run_extends scope before
  rwa [ran] at grown

theorem Task.bind_ran {α β : Type} {scope : Scope} {before after : Shared} {task : Task α} {next : α → Task β} {b : β}
    (ran : (task >>= next).run scope before = (b, after)) :
    ∃ a between, task.run scope before = (a, between) ∧ (next a).run scope between = (b, after) :=
  ⟨_, _, rfl, (Task.run_bind scope task next before).symm.trans ran⟩

namespace Job
variable {α β : Type} {scope : Scope} {before after : Shared}

theorem run_extends {job : Job α} {result : Except StyleError α} (ran : job.run scope before = (result, after)) :
    before.Extends after :=
  Task.ran_extends (show Task.run scope (ExceptT.run job) before = (result, after) from ran)

theorem run_pure (a : α) (shared : Shared) : (pure a : Job α).run scope shared = (.ok a, shared) := rfl

theorem run_ofExcept (result : Except StyleError α) (shared : Shared) : (ofExcept result).run scope shared = (result, shared) :=
  rfl

theorem run_lift (task : Task α) (shared : Shared) :
    Job.run scope (ExceptT.lift task) shared = (.ok (task.run scope shared).1, (task.run scope shared).2) :=
  Task.run_bind scope task (fun a => Task.done (Except.ok a)) shared

theorem run_bind (job : Job α) (next : α → Job β) (shared : Shared) :
    (job >>= next).run scope shared =
      match job.run scope shared with
      | (.ok a, later) => (next a).run scope later
      | (.error error, later) => (.error error, later) := by
  refine (Task.run_bind scope (ExceptT.run job) (ExceptT.bindCont next) shared).trans ?_
  simp only [Job.run]
  split <;> rename_i same <;> rw [same] <;> rfl

/-- Where two jobs in a row succeed, each of them does. -/
theorem bind_ok {job : Job α} {next : α → Job β} {b : β} (ran : (job >>= next).run scope before = (.ok b, after)) :
    ∃ a between, job.run scope before = (.ok a, between) ∧ (next a).run scope between = (.ok b, after) := by
  rw [run_bind] at ran
  split at ran
  · exact ⟨_, _, by assumption, ran⟩
  · simp at ran

theorem pure_ok {a b : α} (ran : (pure a : Job α).run scope before = (.ok b, after)) : a = b ∧ before = after := by
  have same : ((.ok a : Except StyleError α), before) = (.ok b, after) := ran
  simpa using same

theorem ofExcept_ok {result : Except StyleError α} {a : α} (ran : (ofExcept result).run scope before = (.ok a, after)) :
    result = .ok a ∧ before = after := by
  have same : (result, before) = (.ok a, after) := ran
  simpa using same

theorem lift_ok {task : Task α} {a : α} (ran : Job.run scope (ExceptT.lift task) before = (.ok a, after)) :
    task.run scope before = (a, after) := by
  rw [run_lift] at ran
  obtain ⟨first, second⟩ := Prod.mk.inj ran
  exact Prod.ext (Except.ok.inj first) second

theorem throw_ok {error : StyleError} {a : α} : (throw error : Job α).run scope before ≠ (.ok a, after) := by
  intro ran
  have same : ((.error error : Except StyleError α), before) = (.ok a, after) := ran
  simp at same

/-- A job whose success is repeated: run in any later state, it gives the same and leaves the state as it is. -/
def Replays (scope : Scope) (job : Job α) : Prop :=
  ∀ before after a, job.run scope before = (.ok a, after) → ∀ later, after.Extends later →
    job.run scope later = (.ok a, later)

namespace Replays

theorem pure (a : α) : Replays scope (Pure.pure a : Job α) := by
  intro before after b ran later _
  obtain ⟨rfl, -⟩ := pure_ok ran
  rfl

theorem throw (error : StyleError) : Replays scope (MonadExcept.throw error : Job α) :=
  fun _ _ _ ran => absurd ran throw_ok

theorem ofExcept (result : Except StyleError α) : Replays scope (Job.ofExcept result) := by
  intro before after a ran later _
  obtain ⟨rfl, -⟩ := ofExcept_ok ran
  rfl

theorem bind {job : Job α} {next : α → Job β} (first : Replays scope job) (others : ∀ a, Replays scope (next a)) :
    Replays scope (job >>= next) := by
  intro before after b ran later grown
  obtain ⟨a, between, ranFirst, ranNext⟩ := bind_ok ran
  rw [run_bind, first _ _ _ ranFirst later ((run_extends ranNext).trans grown)]
  exact others a _ _ _ ranNext later grown

theorem value (expr : Expression) : Replays scope (Job.value expr) := by
  intro before after text ran later grown
  have same : ((before.values.evaluate scope expr).1, { before with values := (before.values.evaluate scope expr).2 }) =
      ((.ok text : Except StyleError String), after) := ran
  obtain ⟨found, rfl⟩ := Prod.mk.inj same
  have known := grown.values _ _ (ValueCache.evaluate_stores found)
  change ((later.values.evaluate scope expr).1, { later with values := (later.values.evaluate scope expr).2 }) = _
  rw [ValueCache.evaluate_again known]

theorem fontSet (faces : String) : Replays scope (Job.fontSet faces) := by
  intro before after set ran later grown
  have same : ((.ok (before.fonts.getOrCreate faces).1 : Except StyleError FontSet),
      { before with fonts := (before.fonts.getOrCreate faces).2 }) = (.ok set, after) := ran
  obtain ⟨found, rfl⟩ := Prod.mk.inj same
  have known := grown.fonts _ _ FontSets.getOrCreate_stores
  rw [Except.ok.inj found] at known
  change ((.ok (later.fonts.getOrCreate faces).1 : Except StyleError FontSet),
      { later with fonts := (later.fonts.getOrCreate faces).2 }) = _
  rw [FontSets.getOrCreate_again known]

end Replays
end Job
end MapStyle
