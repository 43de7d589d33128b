import MapStyle.Definition
import MapStyle.Sheet.Reader
/-!
Nested rulesets written flat: each nested selector is combined with every selector of the ruleset around it.
-/
namespace MapStyle
namespace Nesting

def selectors (scope : Scope) (parents : Option (List Selector)) :
    List WrittenSelector → Except StyleError (List Selector)
  | [] => .ok []
  | written :: rest => do
    let here := match ← Selector.resolve? scope written with
      | none => []
      | some child =>
        match parents with
        | none => [child]
        | some parents => parents.filterMap fun parent => parent.combine? child
    return here ++ (← selectors scope parents rest)

/-- A definition for each selector; with declarations, the first of them gives the definition its index. -/
def ownDefinitions (selectors : List Selector) (declarations : List Declaration) : List Definition :=
  selectors.map fun selector =>
    let index := (declarations.head?.map Declaration.index).getD selector.index
    Definition.ofSelector { selector with index } declarations

mutual
def flatten (scope : Scope) (parents : Option (List Selector)) : Ruleset → Except StyleError (List Definition)
  | .mk written declarations children _ => do
    let selectors ← selectors scope parents written
    let nested ← flattenAll scope (some selectors) children
    return nested ++ ownDefinitions selectors declarations

def flattenAll (scope : Scope) (parents : Option (List Selector)) : List Ruleset → Except StyleError (List Definition)
  | [] => .ok []
  | ruleset :: rest => do
    let here ← flatten scope parents ruleset
    return here ++ (← flattenAll scope parents rest)
end

end Nesting

namespace Sheet

def definitions (sheet : Sheet) (scope : Scope) : Except StyleError (List Definition) :=
  Nesting.flattenAll scope none sheet.rulesets

def compile (file css : String) : Except StyleError (Scope × List Definition) := do
  let (sheet, _) ← Sheet.read file css ⟨0, 0⟩
  let scope := sheet.defineVariables Scope.empty
  return (scope, ← sheet.definitions scope)

end Sheet
end MapStyle
