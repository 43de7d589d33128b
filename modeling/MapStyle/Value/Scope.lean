import MapStyle.Value.Basic
/-!
Variables and evaluation. Evaluating is substituting: each variable stands for the text of its definition,
through at most `Scope.maxDepth` definitions.
-/
namespace MapStyle

/-- The variables that are defined, each name once. -/
structure Scope where
  entries : List (String × Expression)

namespace Scope

def empty : Scope := ⟨[]⟩

def define (scope : Scope) (name : String) (expr : Expression) : Scope :=
  ⟨(name, expr) :: scope.entries.filter fun entry => entry.1 != name⟩

def defineAll (scope : Scope) (bindings : List (String × Expression)) : Scope :=
  bindings.foldl (fun scope entry => scope.define entry.1 entry.2) scope

def get? (scope : Scope) (name : String) : Option Expression :=
  scope.entries.lookup name

def size (scope : Scope) : Nat := scope.entries.length

def maxDepth : Nat := 32

/-- The text of the variable `name`, with `fuel` definitions left to go through. Every failure is located at
`place`, where the evaluated expression stands. -/
def expand (scope : Scope) (place : Place) : (fuel : Nat) → (name : String) → Except StyleError String
  | fuel, name =>
    match scope.get? name with
    | none => .error (.undefinedVariable name place)
    | some expr =>
      match fuel with
      | 0 => .error (.flawed (.recursiveVariable name) place)
      | fuel + 1 => expr.value.render (expand scope place fuel)

def evaluateAt (scope : Scope) (value : Value) (place : Place) : Except StyleError String :=
  value.render (scope.expand place maxDepth)

def evaluate (scope : Scope) (expr : Expression) : Except StyleError String :=
  scope.evaluateAt expr.value expr.place

end Scope

/-- Texts of expressions that were evaluated before, by the identity of the expression. -/
structure ValueCache where
  entries : List (Nat × String)

namespace ValueCache

def empty : ValueCache := ⟨[]⟩

def get? (cache : ValueCache) (id : Nat) : Option String := cache.entries.lookup id

def size (cache : ValueCache) : Nat := cache.entries.length

def insert (cache : ValueCache) (id : Nat) (text : String) : ValueCache :=
  if (cache.get? id).isSome then cache else ⟨(id, text) :: cache.entries⟩

def store (cache : ValueCache) (id : Nat) : Except StyleError String → ValueCache
  | .ok text => cache.insert id text
  | .error _ => cache

def evaluate (cache : ValueCache) (scope : Scope) (expr : Expression) : Except StyleError String × ValueCache :=
  match cache.get? expr.id with
  | some text => (.ok text, cache)
  | none => (scope.evaluate expr, cache.store expr.id (scope.evaluate expr))

end ValueCache
end MapStyle
