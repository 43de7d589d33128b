import MapStyle.FontSet
import MapStyle.Renderer.Basic
import MapStyle.Value.Scope
/-!
Computations that use what several of them share: the texts of expressions and the font sets. A task says what it
asks for and how it goes on with the answer, so that tasks can be run one after the other or in turns.
-/
namespace MapStyle

inductive Task (α : Type) where
  | done (result : α)
  | value (expr : Expression) (next : Except StyleError String → Task α)
  | fontSet (faces : String) (next : FontSet → Task α)

/-- What tasks share. -/
structure Shared where
  values : ValueCache
  fonts : FontSets

def Shared.empty : Shared := ⟨ValueCache.empty, FontSets.empty⟩

namespace Task

def bind {α β : Type} : Task α → (α → Task β) → Task β
  | .done result, f => f result
  | .value expr next, f => .value expr fun text => (next text).bind f
  | .fontSet faces next, f => .fontSet faces fun set => (next set).bind f

instance : Monad Task where
  pure := .done
  bind := bind

def run {α : Type} (scope : Scope) : Task α → Shared → α × Shared
  | .done result, shared => (result, shared)
  | .value expr next, shared =>
    let (text, values) := shared.values.evaluate scope expr
    (next text).run scope { shared with values }
  | .fontSet faces next, shared =>
    let (set, fonts) := shared.fonts.getOrCreate faces
    (next set).run scope { shared with fonts }

/-- The result when every question has a fixed answer. -/
def answer {α : Type} (text : Expression → Except StyleError String) (fonts : String → FontSet) : Task α → α
  | .done result => result
  | .value expr next => (next (text expr)).answer text fonts
  | .fontSet faces next => (next (fonts faces)).answer text fonts

theorem run_bind {α β : Type} (scope : Scope) (task : Task α) (f : α → Task β) (shared : Shared) :
    (task.bind f).run scope shared =
      (f (task.run scope shared).1).run scope (task.run scope shared).2 := by
  induction task generalizing shared with
  | done result => rfl
  | value expr next ih => exact ih _ _
  | fontSet faces next ih => exact ih _ _

theorem answer_bind {α β : Type} (text : Expression → Except StyleError String) (fonts : String → FontSet)
    (task : Task α) (f : α → Task β) :
    (task.bind f).answer text fonts = (f (task.answer text fonts)).answer text fonts := by
  induction task with
  | done result => rfl
  | value expr next ih => exact ih _
  | fontSet faces next ih => exact ih _

end Task

abbrev Job := ExceptT StyleError Task

namespace Job

def value (expr : Expression) : Job String := ExceptT.mk (.value expr .done)

def fontSet (faces : String) : Job FontSet := ExceptT.mk (.fontSet faces fun set => .done (.ok set))

def ofExcept {α : Type} (result : Except StyleError α) : Job α := ExceptT.mk (.done result)

def run {α : Type} (scope : Scope) (job : Job α) (shared : Shared) : Except StyleError α × Shared :=
  Task.run scope (ExceptT.run job) shared

end Job

/-- What the tasks of one compilation agree on. -/
structure Context where
  scope : Scope
  renderer : Renderer
  registersFonts : Bool
end MapStyle
