import Mathlib.Algebra.Order.BigOperators.Group.List
import Mathlib.Algebra.Order.Ring.Nat
import Mathlib.Data.List.Nodup
import MapStyle.Proofs.Workers.Turns
/-!
The end of the work. A worker that gets enough turns stops, whatever turns the others get; and when all have stopped, the
results are the expected ones in the order of the items, each reported once.
-/
namespace MapStyle
namespace Pool

variable {α β : Type} {foresight : Foresight} {expected : List β} {items : List α} {job : Nat → α → Task β} {pool : Pool β}
  {n : Nat}

theorem step_length (scope : Scope) (m : Nat) : (pool.step scope items job m).workers.length = pool.workers.length := by
  rcases step_cases scope items job pool m with ⟨same, -⟩ | ⟨worker, -, -, turn⟩
  · rw [same]
  · obtain ⟨next, replaced⟩ := turn.workers
    rw [replaced, List.length_set]

theorem run_length (scope : Scope) (schedule : List Nat) :
    (pool.run scope items job schedule).workers.length = pool.workers.length := by
  induction schedule generalizing pool with
  | nil => rfl
  | cons m rest ih => exact ih.trans (step_length scope m)

theorem Sound.done_le (sound : pool.Sound foresight expected) : pool.done ≤ expected.length := by
  have claimed : ∀ workers : List (Worker β), (workers.flatMap Worker.results).length ≤ (workers.flatMap Worker.held).length := by
    intro workers
    induction workers with
    | nil => simp
    | cons worker rest ih =>
      simp only [List.flatMap_cons, List.length_append, Worker.held, List.length_map]
      omega
  have held := sound.held.length_eq
  rw [List.length_range] at held
  have := claimed pool.workers
  rw [sound.done]
  omega

theorem sorted_results {entries : List (Nat × β)} (correct : ∀ entry ∈ entries, expected[entry.1]? = some entry.2)
    (complete : (entries.map Prod.fst).Perm (List.range expected.length)) :
    (entries.mergeSort fun a b => a.1 ≤ b.1).map Prod.snd = expected := by
  have perm := List.mergeSort_perm entries fun a b => decide (a.1 ≤ b.1)
  have sorted := @List.pairwise_mergeSort _ (fun a b : Nat × β => decide (a.1 ≤ b.1))
    (by simp only [decide_eq_true_eq]; omega) (by simp only [Bool.or_eq_true, decide_eq_true_eq]; omega) entries
  generalize entries.mergeSort (fun a b => decide (a.1 ≤ b.1)) = inOrder at perm sorted
  -- only one order of the numbers is sorted, so an entry stands at its own number
  have numbers : inOrder.map Prod.fst = List.range expected.length := by
    apply @List.Perm.eq_of_pairwise _ (· ≤ ·) _ _ fun a b _ _ => Nat.le_antisymm
    · simpa only [List.pairwise_map, decide_eq_true_eq] using sorted
    · exact List.pairwise_le_range
    · exact (perm.map _).trans complete
  apply List.ext_getElem?
  intro i
  have atPlace := congrArg (fun numbers => numbers[i]?) numbers
  simp only [List.getElem?_map] at atPlace ⊢
  cases here : inOrder[i]? with
  | none =>
    rw [here] at atPlace
    have beyond := List.getElem?_eq_none_iff.mp atPlace.symm
    rw [List.length_range] at beyond
    exact (List.getElem?_eq_none_iff.mpr beyond).symm
  | some entry =>
    rw [here] at atPlace
    obtain ⟨inside, same⟩ := List.getElem?_eq_some_iff.mp atPlace.symm
    have isExpected := correct entry (perm.mem_iff.mp (List.mem_of_getElem? here))
    rw [List.getElem_range] at same
    rw [same, isExpected]
    rfl

theorem Sound.all_claimed (sound : pool.Sound foresight expected) {worker : Worker β} (member : worker ∈ pool.workers)
    (stopped : worker.isStopped) : expected.length ≤ pool.next := by
  have activity := (sound.workers worker member).activity
  rwa [Worker.isStopped_iff.mp stopped] at activity

theorem isFinished_iff : pool.isFinished ↔ ∀ worker ∈ pool.workers, worker.isStopped := List.all_eq_true

theorem isFinished_of_stopped
    (stopped : ∀ n < pool.workers.length, ∃ worker, pool.workers[n]? = some worker ∧ worker.isStopped) : pool.isFinished := by
  apply isFinished_iff.mpr
  intro worker member
  obtain ⟨n, inside, rfl⟩ := List.mem_iff_getElem.mp member
  obtain ⟨last, found, isStopped⟩ := stopped n inside
  rwa [(List.getElem?_eq_some_iff.mp found).2]

theorem Sound.finished (sound : pool.Sound foresight expected) (busy : pool.workers ≠ []) (finished : pool.isFinished) :
    pool.done = expected.length ∧ pool.results = expected := by
  have idle : ∀ worker ∈ pool.workers, worker.activity = .stopped :=
    fun worker member => Worker.isStopped_iff.mp (isFinished_iff.mp finished worker member)
  obtain ⟨first, isFirst⟩ := List.exists_mem_of_ne_nil _ busy
  have allClaimed := sound.all_claimed isFirst (isFinished_iff.mp finished first isFirst)
  have numbers : (pool.workers.flatMap Worker.results).map Prod.fst = pool.workers.flatMap Worker.held := by
    rw [List.map_flatMap]
    apply List.flatMap_congr
    intro worker member
    simp [Worker.held, idle worker member, Activity.item?]
  have complete : ((pool.workers.flatMap Worker.results).map Prod.fst).Perm (List.range expected.length) := by
    rw [numbers]
    exact Nat.min_eq_right allClaimed ▸ sound.held
  constructor
  · rw [sound.done, ← List.length_map Prod.fst, complete.length_eq, List.length_range]
  · apply sorted_results _ complete
    intro entry member
    obtain ⟨worker, isWorker, inside⟩ := List.mem_flatMap.mp member
    exact (sound.workers worker isWorker).results entry inside

/-- The turns that the items from `next` on take, with those to claim and to complete each of them. -/
def unclaimed (foresight : Foresight) (items : List α) (job : Nat → α → Task β) (next : Nat) : Nat :=
  ((items.zipIdx.drop next).map fun entry => (job entry.2 entry.1).turns foresight + 3).sum

theorem unclaimed_of_some {next : Nat} {item : α} (isNext : items[next]? = some item) :
    unclaimed foresight items job next = (job next item).turns foresight + 3 + unclaimed foresight items job (next + 1) := by
  obtain ⟨inside, rfl⟩ := List.getElem?_eq_some_iff.mp isNext
  rw [unclaimed, List.drop_eq_getElem_cons (by simpa using inside)]
  simp [unclaimed]

theorem unclaimed_of_none {next : Nat} (isNone : items[next]? = none) : unclaimed foresight items job next = 0 := by
  have beyond := List.getElem?_eq_none_iff.mp isNone
  simp [unclaimed, List.drop_eq_nil_of_le, beyond]

/-- The turns that are left to all workers: for what they are at, and for the items that nobody has claimed. -/
def turns (foresight : Foresight) (items : List α) (job : Nat → α → Task β) (pool : Pool β) : Nat :=
  (pool.workers.map fun worker => worker.activity.turns foresight).sum + unclaimed foresight items job pool.next

theorem unclaimed_anti {next later : Nat} (le : next ≤ later) :
    unclaimed foresight items job later ≤ unclaimed foresight items job next :=
  ((List.drop_sublist_drop_left _ le).map _).sum_le_sum fun _ _ => Nat.zero_le _

theorem Turn.fewer {worker : Worker β} {later : Pool β} (sound : pool.Sound foresight expected)
    (found : pool.workers[n]? = some worker) (turn : Turn foresight.scope items job pool n worker later) :
    ∃ next, later.workers[n]? = some next ∧ next.activity.turns foresight + unclaimed foresight items job later.next <
      worker.activity.turns foresight + unclaimed foresight items job pool.next := by
  have inside := (List.getElem?_eq_some_iff.mp found).1
  cases turn with
  | claimed item isReady isNext =>
    refine ⟨_, List.getElem?_set_self inside, ?_⟩
    rw [isReady, unclaimed_of_some isNext]
    -- each item has turns to spare for being claimed and being completed
    simp only [Activity.turns, Bool.false_eq_true, if_false]
    omega
  | stopped isReady isNone =>
    have noneAfter : items[pool.next + 1]? = none := by
      rw [List.getElem?_eq_none_iff] at isNone ⊢
      omega
    refine ⟨_, List.getElem?_set_self inside, ?_⟩
    rw [isReady, unclaimed_of_none isNone, unclaimed_of_none noneAfter]
    simp [Activity.turns]
  | completed item result missed isBusy =>
    refine ⟨_, List.getElem?_set_self inside, ?_⟩
    rw [isBusy]
    apply Nat.add_lt_add_right
    cases missed <;> simp [Activity.turns, Task.turns]
  | proceeded item task missed isBusy asks proceeds =>
    have busy := (sound.workers worker (List.mem_of_getElem? found)).activity
    rw [isBusy] at busy
    obtain ⟨answer, -, foreseen⟩ := busy
    obtain ⟨task', missed', shared', same, -, -, fewer⟩ := Worker.proceed_foreseen sound.settled item foreseen missed asks
    obtain ⟨rfl, rfl⟩ := Prod.mk.inj (same.symm.trans proceeds)
    refine ⟨_, List.getElem?_set_self inside, ?_⟩
    rw [isBusy]
    exact Nat.add_lt_add_right fewer _

theorem step_other {scope : Scope} {m : Nat} (apart : m ≠ n) :
    (pool.step scope items job m).workers[n]? = pool.workers[n]? := by
  rcases step_cases scope items job pool m with ⟨same, -⟩ | ⟨worker, -, -, turn⟩
  · rw [same]
  · obtain ⟨next, replaced⟩ := turn.workers
    rw [replaced, List.getElem?_set_ne apart]

theorem step_next_le (scope : Scope) (m : Nat) : pool.next ≤ (pool.step scope items job m).next := by
  rcases step_cases scope items job pool m with ⟨same, -⟩ | ⟨worker, -, -, turn⟩
  · exact Nat.le_of_eq (by rw [same])
  · generalize pool.step scope items job m = later at turn
    cases turn with
    | claimed => exact Nat.le_succ _
    | stopped => exact Nat.le_succ _
    | completed => exact Nat.le_refl _
    | proceeded => exact Nat.le_refl _

theorem run_stopped {scope : Scope} {worker : Worker β} (found : pool.workers[n]? = some worker) (stopped : worker.isStopped)
    (schedule : List Nat) : (pool.run scope items job schedule).workers[n]? = some worker := by
  induction schedule generalizing pool with
  | nil => exact found
  | cons m rest ih =>
    apply ih
    by_cases own : m = n
    · subst own
      rcases step_cases scope items job pool m with ⟨same, -⟩ | ⟨other, foundOther, going, -⟩
      · rwa [same]
      · obtain rfl := Option.some.inj (found.symm.trans foundOther)
        simp [stopped] at going
    · rwa [step_other own]

section fair
variable (expects : Expects foresight items job expected) (sound : pool.Sound foresight expected)
include expects sound

/-- A worker stops by its own turns, whatever turns the others get in between: it needs those for what it is at, and at most
those for all the items that nobody has claimed. -/
theorem run_stops_alone {worker : Worker β} (found : pool.workers[n]? = some worker) {schedule : List Nat}
    (enough : worker.activity.turns foresight + unclaimed foresight items job pool.next ≤ schedule.count n) :
    ∃ last, (pool.run foresight.scope items job schedule).workers[n]? = some last ∧ last.isStopped := by
  induction schedule generalizing pool worker with
  | nil =>
    refine ⟨worker, found, ?_⟩
    cases going : worker.isStopped with
    | true => rfl
    | false =>
      have turnsLeft : 0 < worker.activity.turns foresight := Worker.turns_pos going
      rw [List.count_nil] at enough
      omega
  | cons m rest ih =>
    cases going : worker.isStopped with
    | true => exact ⟨worker, run_stopped found going _, going⟩
    | false =>
      by_cases own : m = n
      · subst own
        obtain ⟨next, foundNext, fewer⟩ := (step_turn found going).fewer sound found
        rw [List.count_cons_self] at enough
        exact ih (step_sound expects sound m) foundNext (Nat.le_of_lt_succ (Nat.lt_of_lt_of_le fewer enough))
      · -- the others can only claim items that this worker need not claim then
        have fewer : unclaimed foresight items job (pool.step foresight.scope items job m).next ≤
            unclaimed foresight items job pool.next := unclaimed_anti (step_next_le foresight.scope m)
        rw [List.count_cons_of_ne own] at enough
        exact ih (step_sound expects sound m) ((step_other own).trans found)
          (Nat.le_trans (Nat.add_le_add_left fewer _) enough)

/-- A worker has stopped after as many turns as all workers had left, whatever turns the others got in between. -/
theorem run_stops {worker : Worker β} (found : pool.workers[n]? = some worker) {schedule : List Nat}
    (enough : pool.turns foresight items job ≤ schedule.count n) :
    ∃ last, (pool.run foresight.scope items job schedule).workers[n]? = some last ∧ last.isStopped := by
  have part : worker.activity.turns foresight ≤ (pool.workers.map fun worker => worker.activity.turns foresight).sum :=
    List.single_le_sum (by simp) _ (List.mem_map_of_mem (List.mem_of_getElem? found))
  exact run_stops_alone expects sound found (Nat.le_trans (Nat.add_le_add_right part _) enough)

theorem run_finished {schedule : List Nat}
    (fair : ∀ n < pool.workers.length, pool.turns foresight items job ≤ schedule.count n) :
    (pool.run foresight.scope items job schedule).isFinished := by
  apply isFinished_of_stopped
  intro n inside
  rw [run_length] at inside
  exact run_stops expects sound (List.getElem?_eq_getElem inside) (fair n inside)

end fair
end Pool
end MapStyle
