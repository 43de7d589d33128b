import Mathlib.Data.List.Forall2
import MapStyle.Value.Basic
/-!
Values with their variables filled in. Rendering looks at the variables of a value and nothing else of the scope: it
succeeds where each of them has a text, and fails with the failure of one of them. The values of a list are rendered each by
itself.
-/
namespace MapStyle
namespace Value

mutual
/-- The names of the variables of a value, from left to right. -/
def names : Value → List String
  | .variable name => [name]
  | .call _ args => namesAll args
  | .sequence terms => namesAll terms
  | .list items => namesAll items
  | .keyword _ | .number _ _ | .percentage _ | .color _ | .quoted _ | .field _ | .url _ | .mark _ => []

def namesAll : List Value → List String
  | [] => []
  | value :: rest => names value ++ namesAll rest
end

mutual
/-- The value with a tree in the place of each variable. -/
def fill (tree : String → Value) : Value → Value
  | .variable name => tree name
  | .call name args => .call name (fillAll tree args)
  | .sequence terms => .sequence (fillAll tree terms)
  | .list items => .list (fillAll tree items)
  | .keyword word => .keyword word
  | .number value unit => .number value unit
  | .percentage value => .percentage value
  | .color text => .color text
  | .quoted text => .quoted text
  | .field name => .field name
  | .url path => .url path
  | .mark char => .mark char

def fillAll (tree : String → Value) : List Value → List Value
  | [] => []
  | value :: rest => fill tree value :: fillAll tree rest
end

section fill
variable {tree other : String → Value}

mutual
theorem fill_congr (value : Value) (same : ∀ name ∈ value.names, tree name = other name) :
    value.fill tree = value.fill other := by
  cases value with
  | «variable» name => exact same name (by simp [names])
  | call name args => rw [fill, fill, fillAll_congr args same]
  | sequence terms => rw [fill, fill, fillAll_congr terms same]
  | list items => rw [fill, fill, fillAll_congr items same]
  | _ => rfl

theorem fillAll_congr (values : List Value) (same : ∀ name ∈ namesAll values, tree name = other name) :
    fillAll tree values = fillAll other values := by
  cases values with
  | nil => rfl
  | cons value rest =>
    obtain ⟨here, others⟩ := List.forall_mem_append.mp same
    rw [fillAll, fillAll, fill_congr value here, fillAll_congr rest others]
end

mutual
theorem names_fill (value : Value) (closed : ∀ name ∈ value.names, (tree name).names = []) :
    (value.fill tree).names = [] := by
  cases value with
  | «variable» name => exact closed name (by simp [names])
  | call name args => exact namesAll_fillAll args closed
  | sequence terms => exact namesAll_fillAll terms closed
  | list items => exact namesAll_fillAll items closed
  | _ => rfl

theorem namesAll_fillAll (values : List Value) (closed : ∀ name ∈ namesAll values, (tree name).names = []) :
    namesAll (fillAll tree values) = [] := by
  cases values with
  | nil => rfl
  | cons value rest =>
    obtain ⟨here, others⟩ := List.forall_mem_append.mp closed
    rw [fillAll, namesAll, names_fill value here, namesAll_fillAll rest others]
    rfl
end

mutual
theorem render_fill (expand : String → Except StyleError String) (value : Value) :
    (value.fill tree).render expand = value.render fun name => (tree name).render expand := by
  cases value with
  | call name args => rw [fill, render, render, renderAll_fillAll expand args]
  | sequence terms => rw [fill, render, render, renderAll_fillAll expand terms]
  | list items => rw [fill, render, render, renderAll_fillAll expand items]
  | _ => rfl

theorem renderAll_fillAll (expand : String → Except StyleError String) (values : List Value) :
    renderAll expand (fillAll tree values) = renderAll (fun name => (tree name).render expand) values := by
  cases values with
  | nil => rfl
  | cons value rest => rw [fillAll, renderAll, renderAll, render_fill expand value, renderAll_fillAll expand rest]
end

end fill

section render
variable {expand other : String → Except StyleError String}

mutual
theorem render_congr (value : Value) (same : ∀ name ∈ value.names, expand name = other name) :
    value.render expand = value.render other := by
  cases value with
  | «variable» name => exact same name (by simp [names])
  | call name args => rw [render, render, renderAll_congr args same]
  | sequence terms => rw [render, render, renderAll_congr terms same]
  | list items => rw [render, render, renderAll_congr items same]
  | _ => rfl

theorem renderAll_congr (values : List Value) (same : ∀ name ∈ namesAll values, expand name = other name) :
    renderAll expand values = renderAll other values := by
  cases values with
  | nil => rfl
  | cons value rest =>
    obtain ⟨here, others⟩ := List.forall_mem_append.mp same
    rw [renderAll, renderAll, render_congr value here, renderAll_congr rest others]
end

theorem map_isOk {α β : Type} (result : Except StyleError α) (f : α → β) :
    (do return f (← result) : Except StyleError β).isOk = result.isOk := by
  cases result <;> rfl

mutual
theorem render_isOk (value : Value) :
    (value.render expand).isOk ↔ ∀ name ∈ value.names, (expand name).isOk := by
  cases value with
  | «variable» name => simp [render, names]
  | call name args => exact (congrArg (· = true) (map_isOk _ _)).to_iff.trans (renderAll_isOk args)
  | sequence terms => exact (congrArg (· = true) (map_isOk _ _)).to_iff.trans (renderAll_isOk terms)
  | list items => exact (congrArg (· = true) (map_isOk _ _)).to_iff.trans (renderAll_isOk items)
  | _ => simp [render, names, Except.isOk, Except.toBool]

theorem renderAll_isOk (values : List Value) :
    (renderAll expand values).isOk ↔ ∀ name ∈ namesAll values, (expand name).isOk := by
  cases values with
  | nil => simp [renderAll, namesAll, Except.isOk, Except.toBool]
  | cons value rest =>
    rw [namesAll, List.forall_mem_append, ← render_isOk value, ← renderAll_isOk rest, renderAll]
    cases value.render expand with
    | error error => simp [bind, Except.bind, Except.isOk, Except.toBool]
    | ok text => cases renderAll expand rest <;> simp [bind, Except.bind, pure, Except.pure, Except.isOk, Except.toBool]
end

theorem map_error {α β : Type} {result : Except StyleError α} {f : α → β} {error : StyleError}
    (failed : (do return f (← result) : Except StyleError β) = .error error) : result = .error error := by
  cases result with
  | error other => rw [Except.error.inj failed]
  | ok a => cases failed

mutual
theorem render_error {error : StyleError} (value : Value) (failed : value.render expand = .error error) :
    ∃ name ∈ value.names, expand name = .error error := by
  cases value with
  | «variable» name => exact ⟨name, by simp [names], failed⟩
  | call name args => exact renderAll_error args (map_error failed)
  | sequence terms => exact renderAll_error terms (map_error failed)
  | list items => exact renderAll_error items (map_error failed)
  | _ => cases failed

theorem renderAll_error {error : StyleError} (values : List Value) (failed : renderAll expand values = .error error) :
    ∃ name ∈ namesAll values, expand name = .error error := by
  cases values with
  | nil => cases failed
  | cons value rest =>
    rw [renderAll] at failed
    cases first : value.render expand with
    | error other =>
      rw [first] at failed
      obtain rfl : other = error := Except.error.inj failed
      obtain ⟨name, isIn, same⟩ := render_error value first
      exact ⟨name, List.mem_append_left _ isIn, same⟩
    | ok text =>
      rw [first] at failed
      obtain ⟨name, isIn, same⟩ := renderAll_error rest (map_error failed)
      exact ⟨name, List.mem_append_right _ isIn, same⟩
end

section list
variable {value : Value} {text : String} {values : List Value} {texts : List String}

theorem renderAll_cons (rendered : value.render expand = .ok text) (others : renderAll expand values = .ok texts) :
    renderAll expand (value :: values) = .ok (text :: texts) := by
  rw [renderAll, rendered, others]
  rfl

/-- Where each value has a text with a property, the values have these texts. -/
theorem renderAll_ok {property : String → Prop}
    (each : ∀ value ∈ values, ∃ text, value.render expand = .ok text ∧ property text) :
    ∃ texts, renderAll expand values = .ok texts ∧ List.Forall₂ (fun value text => value.render expand = .ok text) values texts ∧
      ∀ text ∈ texts, property text := by
  induction values with
  | nil => exact ⟨[], rfl, .nil, List.forall_mem_nil _⟩
  | cons value rest ih =>
    obtain ⟨⟨text, rendered, has⟩, others⟩ := List.forall_mem_cons.mp each
    obtain ⟨texts, renderedRest, pairs, allHave⟩ := ih others
    exact ⟨text :: texts, renderAll_cons rendered renderedRest, .cons rendered pairs, List.forall_mem_cons.mpr ⟨has, allHave⟩⟩

end list
end render
end Value
end MapStyle
