import MapStyle.Task
/-!
Workers that take turns. Each claims the next item, goes through its task step by step, and keeps the results of its
items. A schedule says whose turn it is; any worker may have any turn.
-/
namespace MapStyle

variable {α β : Type}

/-- What a worker is at. `missed` means that the answer to the task's question was looked up and not there. -/
inductive Activity (β : Type) where
  | ready
  | busy (item : Nat) (task : Task β) (missed : Bool)
  | stopped

structure Worker (β : Type) where
  activity : Activity β
  results : List (Nat × β)

/-- The workers, the item to be claimed next, what the tasks share, and what was reported: after each item, how many
of how many are done. -/
structure Pool (β : Type) where
  next : Nat
  workers : List (Worker β)
  shared : Shared
  done : Nat
  reports : List (Nat × Nat)

namespace Worker

def start : Worker β := ⟨.ready, []⟩

def isStopped (worker : Worker β) : Bool :=
  match worker.activity with
  | .stopped => true
  | _ => false

/-- The next turn of a task: an answer is looked up in one turn, and if it is not there, found and stored in another. -/
def proceed (scope : Scope) (shared : Shared) (item : Nat) : Task β → (missed : Bool) → Activity β × Shared
  | .done result, missed => (.busy item (.done result) missed, shared)
  | .value expr next, false =>
    match shared.values.get? expr.id with
    | some text => (.busy item (next (.ok text)) false, shared)
    | none => (.busy item (.value expr next) true, shared)
  | .value expr next, true =>
    let text := scope.evaluate expr
    (.busy item (next text) false, { shared with values := shared.values.store expr.id text })
  | .fontSet faces next, false =>
    match shared.fonts.find? faces with
    | some set => (.busy item (next set) false, shared)
    | none => (.busy item (.fontSet faces next) true, shared)
  | .fontSet faces next, true =>
    let (set, fonts) := shared.fonts.getOrCreate faces
    (.busy item (next set) false, { shared with fonts })

end Worker

namespace Pool

def start (threads items : Nat) (shared : Shared) : Pool β where
  next := 0
  workers := List.replicate (max (min threads items) 1) Worker.start
  shared := shared
  done := 0
  reports := []

def setWorker (pool : Pool β) (n : Nat) (worker : Worker β) : Pool β :=
  { pool with workers := pool.workers.set n worker }

def claim (items : List α) (job : Nat → α → Task β) (pool : Pool β) (n : Nat) (worker : Worker β) : Pool β :=
  let activity : Activity β := match items[pool.next]? with
    | some item => .busy pool.next (job pool.next item) false
    | none => .stopped
  { pool.setWorker n { worker with activity } with next := pool.next + 1 }

def complete (total : Nat) (pool : Pool β) (n : Nat) (worker : Worker β) (item : Nat) (result : β) : Pool β :=
  { pool.setWorker n ⟨.ready, worker.results ++ [(item, result)]⟩ with
    done := pool.done + 1
    reports := pool.reports ++ [(pool.done + 1, total)] }

def step (scope : Scope) (items : List α) (job : Nat → α → Task β) (pool : Pool β) (n : Nat) : Pool β :=
  match pool.workers[n]? with
  | none => pool
  | some worker =>
    match worker.activity with
    | .stopped => pool
    | .ready => pool.claim items job n worker
    | .busy item (.done result) _ => pool.complete items.length n worker item result
    | .busy item task missed =>
      let (activity, shared) := Worker.proceed scope pool.shared item task missed
      { pool.setWorker n { worker with activity } with shared }

def run (scope : Scope) (items : List α) (job : Nat → α → Task β) (pool : Pool β) (schedule : List Nat) : Pool β :=
  schedule.foldl (step scope items job) pool

def isFinished (pool : Pool β) : Bool := pool.workers.all Worker.isStopped

def results (pool : Pool β) : List β :=
  ((pool.workers.flatMap Worker.results).mergeSort fun a b => a.1 ≤ b.1).map Prod.snd

end Pool
end MapStyle
