import Mathlib.Logic.Relation
import MapStyle.Proofs.Cascade.Ledger
/-!
Inheritance step by step. A stage is what there is between two steps: the ledger, and how far the passes have come. Visiting
one member is one step, so is placing one; the steps lead from the definitions to what `resolve` makes of them.
-/
namespace MapStyle.Inheritance

theorem visitAll_cons (incoming : Definition) (work : Work) (member : Nat) (rest : List Nat) :
    visitAll incoming work (member :: rest) =
      ((visitAll incoming (visit incoming work member).1 rest).1,
        (visit incoming work member).2 ++ (visitAll incoming (visit incoming work member).1 rest).2) := rfl

theorem pass_cons (work : Work) (members : List Nat) (incoming : Definition) (rest : List Definition) :
    pass work members (incoming :: rest) =
      pass (visitAll incoming work members).1 (visitAll incoming work members).2 rest := rfl

/-- What inheritance is at: between two definitions; in the pass for `own`, where the first of the `followers` is being taken in
and some of the members are visited already, while others are ahead; or placing the members of that pass. -/
inductive Phase where
  | next
  | pass (own : Definition) (followers : List Definition) (visited ahead : List Nat)
  | placing (own : Definition) (members : List Nat)

structure Stage where
  ledger : Ledger
  phase : Phase
  later : List Definition

namespace Stage

def start (definitions : List Definition) : Stage := ⟨Ledger.empty, .next, definitions⟩

/-- The members of the pass: what stands for those visited, and those ahead. -/
def members (stage : Stage) : List Nat :=
  match stage.phase with
  | .next => []
  | .pass _ _ visited ahead => visited ++ ahead
  | .placing _ members => members

/-- One step; none when all passes are over. -/
def step? (stage : Stage) : Option Stage :=
  match stage.phase with
  | .next =>
    match stage.later with
    | [] => none
    | own :: later =>
      some ⟨stage.ledger.push (Entry.ofDefinition own), .pass own (followers own later) [] [stage.ledger.arena.size], later⟩
  | .pass own [] visited ahead => some { stage with phase := .placing own (visited ++ ahead) }
  | .pass own (_ :: rest) visited [] => some { stage with phase := .pass own rest [] visited }
  | .pass own (incoming :: rest) visited (member :: ahead) =>
    let (ledger, here) := stage.ledger.visit incoming member
    some { stage with ledger, phase := .pass own (incoming :: rest) (visited ++ here) ahead }
  | .placing own (member :: rest) =>
    some { stage with ledger := stage.ledger.place own.attachment member, phase := .placing own rest }
  | .placing _ [] => some { stage with phase := .next }

def Runs : Stage → Stage → Prop := Relation.ReflTransGen fun before after => before.step? = some after

section runs
variable {ledger : Ledger} (own : Definition) (rest later : List Definition)

theorem runs_visits (filed : ledger.Filed) (incoming : Definition) (visited ahead : List Nat) : ∃ after, after.Filed ∧
    after.work = (visitAll incoming ledger.work ahead).1 ∧
    Runs ⟨ledger, .pass own (incoming :: rest) visited ahead, later⟩
      ⟨after, .pass own (incoming :: rest) (visited ++ (visitAll incoming ledger.work ahead).2) [], later⟩ := by
  induction ahead generalizing ledger visited with
  | nil =>
    rw [visitAll, List.append_nil]
    exact ⟨ledger, filed, rfl, .refl⟩
  | cons member ahead ih =>
    obtain ⟨filedHere, outcome⟩ := filed.visit incoming member
    obtain ⟨after, filedAfter, workAfter, runs⟩ := ih filedHere (visited ++ (ledger.visit incoming member).2)
    rw [visitAll_cons, ← outcome, ← List.append_assoc]
    exact ⟨after, filedAfter, workAfter, runs.head rfl⟩

theorem runs_pass (filed : ledger.Filed) (members : List Nat) : ∃ after, after.Filed ∧
    after.work = (pass ledger.work members rest).1 ∧
    Runs ⟨ledger, .pass own rest [] members, later⟩ ⟨after, .placing own (pass ledger.work members rest).2, later⟩ := by
  induction rest generalizing ledger members with
  | nil => exact ⟨ledger, filed, rfl, .single rfl⟩
  | cons incoming rest ih =>
    obtain ⟨between, filedBetween, workBetween, visits⟩ := runs_visits own rest later filed incoming [] members
    obtain ⟨after, filedAfter, workAfter, runs⟩ := ih filedBetween (visitAll incoming ledger.work members).2
    rw [pass_cons, ← workBetween]
    exact ⟨after, filedAfter, workAfter, visits.trans (runs.head rfl)⟩

theorem runs_placing (filed : ledger.Filed) (members : List Nat) : ∃ after, after.Filed ∧
    after.work = members.foldl (fun work member => work.place own.attachment member) ledger.work ∧
    Runs ⟨ledger, .placing own members, later⟩ ⟨after, .next, later⟩ := by
  induction members generalizing ledger with
  | nil => exact ⟨ledger, filed, rfl, .single rfl⟩
  | cons member rest ih =>
    obtain ⟨after, filedAfter, workAfter, runs⟩ := ih (filed.place own.attachment member)
    rw [List.foldl_cons, ← Ledger.work_place]
    exact ⟨after, filedAfter, workAfter, runs.head rfl⟩

theorem runs_step (filed : ledger.Filed) : ∃ after, after.Filed ∧ after.work = step ledger.work own later ∧
    Runs ⟨ledger, .next, own :: later⟩ ⟨after, .next, later⟩ := by
  have begun := filed.push (Entry.ofDefinition_filed own)
  obtain ⟨between, filedBetween, workBetween, passing⟩ :=
    runs_pass own (followers own later) later begun [ledger.arena.size]
  obtain ⟨after, filedAfter, workAfter, placing⟩ := runs_placing own later filedBetween
    (pass (ledger.push (Entry.ofDefinition own)).work [ledger.arena.size] (followers own later)).2
  refine ⟨after, filedAfter, ?_, (passing.trans placing).head rfl⟩
  rw [workAfter, workBetween, Ledger.work_push, step_eq, passed, Ledger.size_work]
  rfl

theorem runs_resolveFrom (filed : ledger.Filed) (definitions : List Definition) : ∃ after, after.Filed ∧
    after.work = resolveFrom ledger.work definitions ∧ Runs ⟨ledger, .next, definitions⟩ ⟨after, .next, []⟩ := by
  induction definitions generalizing ledger with
  | nil => exact ⟨ledger, filed, rfl, .refl⟩
  | cons own later ih =>
    obtain ⟨between, filedBetween, workBetween, here⟩ := runs_step own later filed
    obtain ⟨after, filedAfter, workAfter, rest⟩ := ih filedBetween
    exact ⟨after, filedAfter, by rw [workAfter, workBetween]; rfl, here.trans rest⟩

end runs

end Stage
end MapStyle.Inheritance
