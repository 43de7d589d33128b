import MapStyle.Proofs.Workers.Finish
/-!
A function applied by workers. The counter hands out each item once and in order, whoever asks for the next one, so that the
function is called once for each item; and what the workers come to is what the function makes of the items in their order.
-/
namespace MapStyle
namespace Pool
variable {α β : Type} {items : List α} {job : Nat → α → Task β} {pool : Pool β} {n : Nat} {worker : Worker β}

def call? (items : List α) (pool : Pool β) (n : Nat) : Option (α × Nat) :=
  match pool.workers[n]?.map Worker.activity with
  | some .ready => items[pool.next]?.map fun item => (item, pool.next)
  | _ => none

def calls (scope : Scope) (items : List α) (job : Nat → α → Task β) (pool : Pool β) : List Nat → List (α × Nat)
  | [] => []
  | n :: rest => (pool.call? items n).toList ++ calls scope items job (pool.step scope items job n) rest

theorem call?_of_ready (found : pool.workers[n]? = some worker) (ready : worker.activity = .ready) :
    pool.call? items n = items[pool.next]?.map fun item => (item, pool.next) := by
  rw [call?, found, Option.map_some, ready]

theorem call?_of_other (other : ∀ worker, pool.workers[n]? = some worker → worker.activity ≠ .ready) :
    pool.call? items n = none := by
  unfold call?
  split
  · rename_i ready
    obtain ⟨worker, found, isReady⟩ := Option.map_eq_some_iff.mp ready
    exact absurd isReady (other worker found)
  · rfl

theorem step_calls (scope : Scope) (items : List α) (job : Nat → α → Task β) (pool : Pool β) (n : Nat) :
    items.zipIdx.take (pool.step scope items job n).next = items.zipIdx.take pool.next ++ (pool.call? items n).toList := by
  rcases step_cases scope items job pool n with ⟨same, idle⟩ | ⟨worker, found, -, turn⟩
  · rw [same, call?_of_other, Option.toList_none, List.append_nil]
    intro worker found
    simp [Worker.isStopped_iff.mp (idle worker found)]
  · have isWorker : ∀ other, pool.workers[n]? = some other → other = worker := fun other foundOther =>
      Option.some.inj (foundOther.symm.trans found)
    generalize pool.step scope items job n = later at turn
    cases turn with
    | claimed item isReady isNext =>
      rw [call?_of_ready found isReady, isNext, List.take_add_one, List.getElem?_zipIdx, isNext]
      simp
    | stopped isReady isNone =>
      rw [call?_of_ready found isReady, isNone, List.take_add_one, List.getElem?_zipIdx, isNone]
      simp
    | completed item result missed isBusy =>
      rw [call?_of_other fun other foundOther => by simp [isWorker other foundOther, isBusy]]
      exact (List.append_nil _).symm
    | proceeded item task missed isBusy asks proceeds =>
      rw [call?_of_other fun other foundOther => by simp [isWorker other foundOther, isBusy]]
      exact (List.append_nil _).symm

theorem run_calls (scope : Scope) (items : List α) (job : Nat → α → Task β) (pool : Pool β) (schedule : List Nat) :
    items.zipIdx.take (pool.run scope items job schedule).next =
      items.zipIdx.take pool.next ++ pool.calls scope items job schedule := by
  induction schedule generalizing pool with
  | nil => exact (List.append_nil _).symm
  | cons n rest ih =>
    rw [calls, ← List.append_assoc, ← step_calls]
    exact ih (pool.step scope items job n)

/-- A function of an item and its number as a job that asks for nothing. -/
def jobOf (f : Nat → α → β) : Nat → α → Task β := fun n item => .done (f n item)

/-- The workers after the turns of a schedule, when they apply a function to items. -/
def mapping (scope : Scope) (shared : Shared) (threads : Nat) (f : Nat → α → β) (items : List α) (schedule : List Nat) : Pool β :=
  (start threads items.length shared).run scope items (jobOf f) schedule

def unasked (scope : Scope) (shared : Shared) : Foresight where
  scope := scope
  asked _ := False
  fonts := shared.fonts
  one _ _ isAsked := False.elim isAsked

theorem jobOf_expects (scope : Scope) (shared : Shared) (f : Nat → α → β) (items : List α) :
    Expects (unasked scope shared) items (jobOf f) (items.mapIdx f) where
  length := (List.length_mapIdx).symm
  foreseen := by
    intro n item found
    exact ⟨f n item, by rw [List.getElem?_mapIdx, found]; rfl, .done _⟩

theorem unclaimed_jobOf (foresight : Foresight) (f : Nat → α → β) (items : List α) :
    unclaimed foresight items (jobOf f) 0 = 3 * items.length := by
  simp [unclaimed, jobOf, Task.turns, Nat.mul_comm]

variable (scope : Scope) (shared : Shared) (threads : Nat) (f : Nat → α → β) (schedule : List Nat)

theorem start_unasked (count : Nat) : (start threads count shared).Sound (unasked scope shared) (items.mapIdx f) :=
  start_sound ⟨rfl, fun _ isAsked => False.elim isAsked⟩ threads count

theorem mapping_sound : (mapping scope shared threads f items schedule).Sound (unasked scope shared) (items.mapIdx f) :=
  run_sound (jobOf_expects scope shared f items) (start_unasked scope shared threads f _) schedule

theorem mapping_length : (mapping scope shared threads f items schedule).workers.length = max (min threads items.length) 1 := by
  rw [mapping, run_length, start, List.length_replicate]

theorem mapping_calls : (start threads items.length shared).calls scope items (jobOf f) schedule =
    items.zipIdx.take (mapping scope shared threads f items schedule).next := by
  rw [mapping, run_calls]
  rfl

theorem mapping_stops (isWorker : n < max (min threads items.length) 1) (enough : 3 * items.length + 1 ≤ schedule.count n) :
    ∃ worker, (mapping scope shared threads f items schedule).workers[n]? = some worker ∧ worker.isStopped := by
  have found : (start threads items.length shared : Pool β).workers[n]? = some Worker.start := by
    rw [start, List.getElem?_replicate, if_pos isWorker]
  apply run_stops_alone (jobOf_expects scope shared f items) (start_unasked scope shared threads f _) found
  rw [start, unclaimed_jobOf]
  exact (Nat.add_comm _ _).trans_le enough

theorem mapping_finished (finished : (mapping scope shared threads f items schedule).isFinished) :
    (start threads items.length shared).calls scope items (jobOf f) schedule = items.zipIdx ∧
      (mapping scope shared threads f items schedule).results = items.mapIdx f := by
  have sound : (mapping scope shared threads f items schedule).Sound (unasked scope shared) (items.mapIdx f) :=
    mapping_sound scope shared threads f schedule
  have busy : (mapping scope shared threads f items schedule).workers ≠ [] := by
    rw [← List.length_pos_iff, mapping_length]
    omega
  constructor
  · obtain ⟨worker, member⟩ := List.exists_mem_of_ne_nil _ busy
    have claimed := sound.all_claimed member (isFinished_iff.mp finished worker member)
    rw [List.length_mapIdx] at claimed
    rw [mapping_calls, List.take_of_length_le (by rwa [List.length_zipIdx])]
  · exact (sound.finished busy finished).2

/-- Whatever the number of threads and the order of turns, the function is called for the items in their order, for each once.
A worker stops by its own turns, of which three for each item and one more are enough; when every worker had so many, all have
stopped; and when all have stopped, there was a call for every item, and the results are those of the items in their order. -/
theorem mapping_exact :
    (start threads items.length shared).calls scope items (jobOf f) schedule =
        items.zipIdx.take (mapping scope shared threads f items schedule).next ∧
      (∀ n < max (min threads items.length) 1, 3 * items.length + 1 ≤ schedule.count n →
        ∃ worker, (mapping scope shared threads f items schedule).workers[n]? = some worker ∧ worker.isStopped) ∧
      ((∀ n < max (min threads items.length) 1, 3 * items.length + 1 ≤ schedule.count n) →
        (mapping scope shared threads f items schedule).isFinished) ∧
      ((mapping scope shared threads f items schedule).isFinished →
        (start threads items.length shared).calls scope items (jobOf f) schedule = items.zipIdx ∧
          (mapping scope shared threads f items schedule).results = items.mapIdx f) := by
  have stops : ∀ n < max (min threads items.length) 1, 3 * items.length + 1 ≤ schedule.count n →
      ∃ worker, (mapping scope shared threads f items schedule).workers[n]? = some worker ∧ worker.isStopped :=
    fun n isWorker enough => mapping_stops scope shared threads f schedule isWorker enough
  refine ⟨mapping_calls scope shared threads f schedule, stops, fun fair => ?_, mapping_finished scope shared threads f schedule⟩
  apply isFinished_of_stopped
  intro n inside
  rw [mapping_length] at inside
  exact stops n inside (fair n inside)

theorem mapping_exact_three : ∀ schedule ∈ [(List.replicate 10 [0, 1]).flatten, List.replicate 10 1 ++ List.replicate 10 0],
    (mapping Scope.empty Shared.empty 2 (fun n item => n + item) [1, 2, 3] schedule).results = [1, 3, 5] ∧
      (start 2 3 Shared.empty).calls Scope.empty [1, 2, 3] (jobOf fun n item => n + item) schedule = [(1, 0), (2, 1), (3, 2)] := by
  intro schedule isOne
  obtain ⟨-, -, ends, finished⟩ :=
    @mapping_exact Nat Nat [1, 2, 3] Scope.empty Shared.empty 2 (fun n item => n + item) schedule
  have fair : ∀ n < max (min 2 3) 1, 3 * 3 + 1 ≤ schedule.count n := by
    simp only [List.mem_cons, List.not_mem_nil, or_false] at isOne
    rcases isOne with rfl | rfl <;> decide
  obtain ⟨calls, results⟩ := finished (ends fair)
  exact ⟨results, calls⟩

end Pool
end MapStyle
