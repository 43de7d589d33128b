import MapStyle.Proofs.Task.Foreseen
/-!
Answers. Where the text of each expression and the set of each list of faces is fixed, a task is the result that it comes
to with them, and what is foreseen comes to the foreseen answer.
-/
namespace MapStyle
variable {α β : Type} (text : Expression → Except StyleError String) (fonts : String → FontSet)

@[simp] theorem Task.answer_pure (a : α) : Task.answer text fonts (pure a) = a := rfl

@[simp] theorem Task.answer_then (task : Task α) (next : α → Task β) :
    Task.answer text fonts (task >>= next) = Task.answer text fonts (next (Task.answer text fonts task)) :=
  Task.answer_bind text fonts task next

namespace Job

/-- The result of a job when every question has a fixed answer. -/
def answer (job : Job α) : Except StyleError α := Task.answer text fonts (ExceptT.run job)

@[simp] theorem answer_pure (a : α) : answer text fonts (pure a) = .ok a := rfl

@[simp] theorem answer_ofExcept (result : Except StyleError α) : answer text fonts (ofExcept result) = result := rfl

@[simp] theorem answer_value (expr : Expression) : answer text fonts (value expr) = text expr := rfl

@[simp] theorem answer_bind (job : Job α) (next : α → Job β) :
    answer text fonts (job >>= next) = answer text fonts job >>= fun a => answer text fonts (next a) := by
  refine (Task.answer_bind text fonts (ExceptT.run job) (ExceptT.bindCont next)).trans ?_
  change Task.answer text fonts (ExceptT.bindCont next (answer text fonts job)) = _
  cases answer text fonts job <;> rfl

@[simp] theorem answer_lift (task : Task α) : answer text fonts (ExceptT.lift task) = .ok (task.answer text fonts) :=
  Task.answer_bind text fonts task fun a => Task.done (Except.ok a : Except StyleError α)

end Job

/-- What is foreseen is the answer with the texts of the scope and the registered fonts. -/
theorem Task.Foreseen.eq_answer {foresight : Foresight} {task : Task α} {result : α} (foreseen : Foreseen foresight task result) :
    result = task.answer foresight.scope.evaluate fun faces => (foresight.fonts.getOrCreate faces).1 := by
  induction foreseen with
  | done result => rfl
  | value isAsked _ ih => exact ih
  | fontSet registered _ ih =>
    rw [Task.answer, FontSets.getOrCreate_again registered]
    exact ih

end MapStyle
