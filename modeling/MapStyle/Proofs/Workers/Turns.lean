import MapStyle.Proofs.Task.Foreseen
import MapStyle.Workers
/-!
Workers in turns. Where each item's task is foreseen, all orders of turns agree: every item is claimed by one worker, whose
result is the expected one, and nothing is registered.
-/
namespace MapStyle

variable {α β : Type} {foresight : Foresight} {expected : List β}

def Task.turns (foresight : Foresight) : Task β → Nat
  | .done _ => 0
  | .value expr next => (next (foresight.scope.evaluate expr)).turns foresight + 2
  | .fontSet faces next => (next (foresight.fonts.getOrCreate faces).1).turns foresight + 2

namespace Activity

def item? : Activity β → Option Nat
  | .busy item _ _ => some item
  | _ => none

def turns (foresight : Foresight) : Activity β → Nat
  | .ready => 1
  | .busy _ task missed => task.turns foresight + if missed then 2 else 3
  | .stopped => 0

/-- A busy worker comes to what is expected of its item, and one stops only when every item has been claimed. -/
def Sound (foresight : Foresight) (expected : List β) (claimed : Nat) : Activity β → Prop
  | .ready => True
  | .busy item task _ => ∃ result, expected[item]? = some result ∧ Task.Foreseen foresight task result
  | .stopped => expected.length ≤ claimed

end Activity

namespace Worker

theorem isStopped_iff {worker : Worker β} : worker.isStopped ↔ worker.activity = .stopped := by
  unfold isStopped
  cases worker.activity <;> simp

theorem turns_pos {worker : Worker β} (going : worker.isStopped = false) : 0 < worker.activity.turns foresight := by
  cases same : worker.activity with
  | ready => exact Nat.one_pos
  | busy item task missed => cases missed <;> simp [Activity.turns]
  | stopped => simp [isStopped_iff.mpr same] at going

/-- The items that a worker has claimed. -/
def held (worker : Worker β) : List Nat := worker.results.map Prod.fst ++ worker.activity.item?.toList

structure Sound (foresight : Foresight) (expected : List β) (claimed : Nat) (worker : Worker β) : Prop where
  results : ∀ entry ∈ worker.results, expected[entry.1]? = some entry.2
  activity : worker.activity.Sound foresight expected claimed

theorem Sound.mono {claimed more : Nat} (le : claimed ≤ more) {worker : Worker β}
    (sound : worker.Sound foresight expected claimed) : worker.Sound foresight expected more := by
  obtain ⟨results, activity⟩ := sound
  refine ⟨results, ?_⟩
  cases same : worker.activity with
  | ready => trivial
  | busy item task missed => rwa [same] at activity
  | stopped =>
    rw [same] at activity
    exact Nat.le_trans activity le

theorem proceed_foreseen {shared : Shared} (settled : foresight.Settled shared) (item : Nat) {task : Task β} {result : β}
    (foreseen : Task.Foreseen foresight task result) (missed : Bool) (asks : ∀ answer, task ≠ .done answer) :
    ∃ next missed' later, proceed foresight.scope shared item task missed = (.busy item next missed', later) ∧
      Task.Foreseen foresight next result ∧ foresight.Settled later ∧
      Activity.turns foresight (.busy item next missed') < Activity.turns foresight (.busy item task missed) := by
  cases foreseen with
  | done => exact absurd rfl (asks result)
  | @value expr next _ isAsked rest =>
    cases missed with
    | true =>
      -- another worker may have stored the text in the meantime: it is the same one
      refine ⟨_, _, _, rfl, rest, settled.store isAsked, ?_⟩
      simp only [Activity.turns, Task.turns, if_true, Bool.false_eq_true, if_false]
      omega
    | false =>
      cases found : shared.values.get? expr.id with
      | none =>
        refine ⟨.value expr next, true, shared, by simp only [proceed, found], .value isAsked rest, settled, ?_⟩
        simp [Activity.turns]
      | some text =>
        have known := settled.values expr isAsked text found
        refine ⟨next (.ok text), false, shared, by simp only [proceed, found], known ▸ rest, settled, ?_⟩
        simp [Activity.turns, Task.turns, known]
  | @fontSet faces set next _ registered rest =>
    have again := FontSets.getOrCreate_again registered
    -- in both turns the set is found, so that neither registers it
    cases missed with
    | true =>
      refine ⟨next set, false, shared, by simp only [proceed, settled.getOrCreate registered], rest, settled, ?_⟩
      simp [Activity.turns, Task.turns, again]
    | false =>
      have known : shared.fonts.find? faces = some set := by rw [settled.fonts, registered]
      refine ⟨next set, false, shared, by simp only [proceed, known], rest, settled, ?_⟩
      simp [Activity.turns, Task.turns, again]

end Worker

namespace Pool

/-- What a turn of worker `n` comes to while it goes on. -/
inductive Turn (scope : Scope) (items : List α) (job : Nat → α → Task β) (pool : Pool β) (n : Nat) (worker : Worker β) :
    Pool β → Prop where
  | claimed (item : α) (isReady : worker.activity = .ready) (isNext : items[pool.next]? = some item) :
      Turn scope items job pool n worker
        { pool.setWorker n { worker with activity := .busy pool.next (job pool.next item) false } with next := pool.next + 1 }
  | stopped (isReady : worker.activity = .ready) (isNone : items[pool.next]? = none) :
      Turn scope items job pool n worker
        { pool.setWorker n { worker with activity := .stopped } with next := pool.next + 1 }
  | completed (item : Nat) (result : β) (missed : Bool) (isBusy : worker.activity = .busy item (.done result) missed) :
      Turn scope items job pool n worker (pool.complete items.length n worker item result)
  | proceeded (item : Nat) (task : Task β) (missed : Bool) (isBusy : worker.activity = .busy item task missed)
      (asks : ∀ answer, task ≠ .done answer) {activity : Activity β} {shared : Shared}
      (proceeds : Worker.proceed scope pool.shared item task missed = (activity, shared)) :
      Turn scope items job pool n worker { pool.setWorker n { worker with activity } with shared }

section turn
variable {scope : Scope} {items : List α} {job : Nat → α → Task β} {pool later : Pool β} {n : Nat} {worker : Worker β}

theorem Turn.workers (turn : Turn scope items job pool n worker later) : ∃ next, later.workers = pool.workers.set n next := by
  cases turn <;> exact ⟨_, rfl⟩

theorem step_turn (found : pool.workers[n]? = some worker) (going : worker.isStopped = false) :
    Turn scope items job pool n worker (pool.step scope items job n) := by
  unfold step
  rw [found]
  dsimp only
  cases same : worker.activity with
  | stopped => simp [Worker.isStopped, same] at going
  | ready =>
    unfold claim
    cases isNext : items[pool.next]? with
    | none => exact .stopped same isNext
    | some item => exact .claimed item same isNext
  | busy item task missed =>
    cases task with
    | done result => exact .completed item result missed same
    | value expr next => exact .proceeded item _ missed same (by simp) rfl
    | fontSet faces next => exact .proceeded item _ missed same (by simp) rfl

theorem step_cases (scope : Scope) (items : List α) (job : Nat → α → Task β) (pool : Pool β) (n : Nat) :
    (pool.step scope items job n = pool ∧ ∀ worker, pool.workers[n]? = some worker → worker.isStopped) ∨
      ∃ worker, pool.workers[n]? = some worker ∧ worker.isStopped = false ∧
        Turn scope items job pool n worker (pool.step scope items job n) := by
  cases found : pool.workers[n]? with
  | none => exact Or.inl ⟨by simp only [step, found], by simp⟩
  | some worker =>
    cases going : worker.isStopped with
    | false => exact Or.inr ⟨worker, rfl, going, step_turn found going⟩
    | true =>
      refine Or.inl ⟨?_, by simpa using going⟩
      unfold step
      rw [found]
      dsimp only
      rw [Worker.isStopped_iff.mp going]

end turn

/-- The tasks of the items come to what is expected of them. -/
structure Expects (foresight : Foresight) (items : List α) (job : Nat → α → Task β) (expected : List β) : Prop where
  length : items.length = expected.length
  foreseen : ∀ n item, items[n]? = some item → ∃ result, expected[n]? = some result ∧
    Task.Foreseen foresight (job n item) result

/-- What holds of a pool whatever the order of turns was: the items below `next` are claimed, each by one worker, and each
result was reported when it was there. -/
structure Sound (foresight : Foresight) (expected : List β) (pool : Pool β) : Prop where
  settled : foresight.Settled pool.shared
  workers : ∀ worker ∈ pool.workers, worker.Sound foresight expected pool.next
  held : (pool.workers.flatMap Worker.held).Perm (List.range (min pool.next expected.length))
  done : pool.done = (pool.workers.flatMap Worker.results).length
  reports : pool.reports = (List.range pool.done).map fun before => (before + 1, expected.length)

section sound
variable {items : List α} {job : Nat → α → Task β} {pool later : Pool β} {n : Nat} {worker next : Worker β}

theorem flatMap_setWorker {γ : Type} (f : Worker β → List γ) {added : List γ} (found : pool.workers[n]? = some worker)
    (adds : f next = f worker ++ added) :
    ((pool.setWorker n next).workers.flatMap f).Perm (pool.workers.flatMap f ++ added) := by
  obtain ⟨inside, rfl⟩ := List.getElem?_eq_some_iff.mp found
  obtain ⟨front, back, split, -, replaced⟩ := @List.exists_of_set _ _ next _ inside
  conv => rhs; rw [split]
  rw [setWorker, replaced]
  simp only [List.flatMap_append, List.flatMap_cons, adds, List.append_assoc]
  exact (List.perm_append_comm.append_left _).append_left _

theorem Sound.turn (sound : pool.Sound foresight expected) (found : pool.workers[n]? = some worker)
    (workers : later.workers = (pool.setWorker n next).workers) (more : pool.next ≤ later.next)
    (settled : foresight.Settled later.shared) (soundNext : next.Sound foresight expected later.next)
    {claims : List Nat} (held : next.held = worker.held ++ claims)
    (range : List.range (min later.next expected.length) = List.range (min pool.next expected.length) ++ claims)
    {completes : List (Nat × β)} (results : next.results = worker.results ++ completes)
    (done : later.done = pool.done + completes.length)
    (reports : later.reports = (List.range later.done).map fun before => (before + 1, expected.length)) :
    later.Sound foresight expected := by
  constructor
  · exact settled
  · intro other member
    rw [workers] at member
    rcases List.mem_or_eq_of_mem_set member with isOld | rfl
    · exact (sound.workers other isOld).mono more
    · exact soundNext
  · rw [workers, range]
    exact (flatMap_setWorker Worker.held found held).trans (sound.held.append_right _)
  · have lengths := (flatMap_setWorker Worker.results found results).length_eq
    rw [List.length_append] at lengths
    rw [workers, done, lengths, sound.done]
  · exact reports

theorem Sound.claims (sound : pool.Sound foresight expected) (expects : Expects foresight items job expected)
    (found : pool.workers[n]? = some worker) (isReady : worker.activity = .ready) {item : α}
    (isNext : items[pool.next]? = some item) :
    Sound foresight expected
      { pool.setWorker n { worker with activity := .busy pool.next (job pool.next item) false } with next := pool.next + 1 } := by
  have before := sound.workers worker (List.mem_of_getElem? found)
  have inside := (List.getElem?_eq_some_iff.mp isNext).1
  have total := expects.length
  have onNext : min (pool.next + 1) expected.length = pool.next + 1 ∧ min pool.next expected.length = pool.next := by omega
  apply sound.turn found
  · rfl
  · exact Nat.le_succ _
  · exact sound.settled
  · exact ⟨before.results, expects.foreseen _ _ isNext⟩
  · show _ = worker.held ++ [pool.next]
    simp [Worker.held, isReady, Activity.item?]
  · rw [onNext.1, onNext.2, List.range_succ]
  · exact (List.append_nil _).symm
  · rfl
  · exact sound.reports

theorem Sound.stops (sound : pool.Sound foresight expected) (expects : Expects foresight items job expected)
    (found : pool.workers[n]? = some worker) (isReady : worker.activity = .ready) (isNone : items[pool.next]? = none) :
    Sound foresight expected
      { pool.setWorker n { worker with activity := .stopped } with next := pool.next + 1 } := by
  have before := sound.workers worker (List.mem_of_getElem? found)
  have beyond := List.getElem?_eq_none_iff.mp isNone
  have total := expects.length
  have noNext : min (pool.next + 1) expected.length = min pool.next expected.length := by omega
  apply sound.turn found
  · rfl
  · exact Nat.le_succ _
  · exact sound.settled
  · exact ⟨before.results, by simp only [Activity.Sound]; omega⟩
  · show _ = worker.held ++ []
    simp [Worker.held, isReady, Activity.item?]
  · rw [noNext, List.append_nil]
  · exact (List.append_nil _).symm
  · rfl
  · exact sound.reports

theorem Sound.completes (sound : pool.Sound foresight expected) (expects : Expects foresight items job expected)
    (found : pool.workers[n]? = some worker) {item : Nat} {result : β} {missed : Bool}
    (isBusy : worker.activity = .busy item (.done result) missed) :
    (pool.complete items.length n worker item result).Sound foresight expected := by
  obtain ⟨isKept, activity⟩ := sound.workers worker (List.mem_of_getElem? found)
  rw [isBusy] at activity
  obtain ⟨answer, isExpected, foreseen⟩ := activity
  cases foreseen
  apply sound.turn found
  · rfl
  · exact Nat.le_refl _
  · exact sound.settled
  · exact ⟨List.forall_mem_append.mpr ⟨isKept, by simpa using isExpected⟩, trivial⟩
  · show _ = worker.held ++ []
    simp [Worker.held, isBusy, Activity.item?]
  · exact (List.append_nil _).symm
  · rfl
  · rfl
  · simp only [complete, List.range_succ, List.map_append, List.map_singleton, sound.reports, expects.length]

theorem Sound.proceeds (sound : pool.Sound foresight expected) (found : pool.workers[n]? = some worker) {item : Nat}
    {task : Task β} {missed : Bool} (isBusy : worker.activity = .busy item task missed)
    (asks : ∀ answer, task ≠ .done answer) {activity : Activity β} {shared : Shared}
    (proceeds : Worker.proceed foresight.scope pool.shared item task missed = (activity, shared)) :
    Sound foresight expected { pool.setWorker n { worker with activity } with shared } := by
  obtain ⟨isKept, before⟩ := sound.workers worker (List.mem_of_getElem? found)
  rw [isBusy] at before
  obtain ⟨answer, isExpected, foreseen⟩ := before
  obtain ⟨task', missed', shared, same, foreseen, settled, -⟩ :=
    Worker.proceed_foreseen sound.settled item foreseen missed asks
  obtain ⟨rfl, rfl⟩ := Prod.mk.inj (same.symm.trans proceeds)
  apply sound.turn found
  · rfl
  · exact Nat.le_refl _
  · exact settled
  · exact ⟨isKept, answer, isExpected, foreseen⟩
  · show _ = worker.held ++ []
    simp [Worker.held, isBusy, Activity.item?]
  · exact (List.append_nil _).symm
  · exact (List.append_nil _).symm
  · rfl
  · exact sound.reports

theorem Turn.sound (expects : Expects foresight items job expected) (sound : pool.Sound foresight expected)
    (found : pool.workers[n]? = some worker) (turn : Turn foresight.scope items job pool n worker later) :
    later.Sound foresight expected := by
  cases turn with
  | claimed item isReady isNext => exact sound.claims expects found isReady isNext
  | stopped isReady isNone => exact sound.stops expects found isReady isNone
  | completed item result missed isBusy => exact sound.completes expects found isBusy
  | proceeded item task missed isBusy asks proceeds => exact sound.proceeds found isBusy asks proceeds

theorem step_sound (expects : Expects foresight items job expected) (sound : pool.Sound foresight expected) (n : Nat) :
    (pool.step foresight.scope items job n).Sound foresight expected := by
  rcases step_cases foresight.scope items job pool n with ⟨same, -⟩ | ⟨worker, found, -, turn⟩
  · rwa [same]
  · exact Turn.sound expects sound found turn

theorem run_sound (expects : Expects foresight items job expected) (sound : pool.Sound foresight expected)
    (schedule : List Nat) : (pool.run foresight.scope items job schedule).Sound foresight expected := by
  induction schedule generalizing pool with
  | nil => exact sound
  | cons n rest ih => exact ih (step_sound expects sound n)

theorem start_sound {shared : Shared} (settled : foresight.Settled shared) (threads count : Nat) :
    (Pool.start threads count shared).Sound foresight expected := by
  constructor
  · exact settled
  · intro worker member
    rw [List.eq_of_mem_replicate member]
    exact ⟨by simp [Worker.start], trivial⟩
  · simp [start, Worker.start, Worker.held, Activity.item?]
  · simp [start, Worker.start]
  · rfl

end sound
end Pool
end MapStyle
