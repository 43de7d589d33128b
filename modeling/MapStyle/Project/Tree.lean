/-!
Trees of layers, listed as one line of work, each before its members, and put together again from the results.
-/
namespace MapStyle

inductive Tree (α : Type) where
  | node (value : α) (members : List (Tree α))

namespace Tree

variable {α β : Type}

def value : Tree α → α
  | node value _ => value

def members : Tree α → List (Tree α)
  | node _ members => members

mutual
def walk : Tree α → List (Tree α)
  | node value members => node value members :: walkAll members

def walkAll : List (Tree α) → List (Tree α)
  | [] => []
  | tree :: rest => walk tree ++ walkAll rest
end

mutual
def size : Tree α → Nat
  | node _ members => 1 + sizeAll members

def sizeAll : List (Tree α) → Nat
  | [] => 0
  | tree :: rest => size tree + sizeAll rest
end

mutual
/-- The tree of the results of `f`, which sees each node with its members. -/
def map (f : Tree α → β) : Tree α → Tree β
  | node value members => node (f (node value members)) (mapAll f members)

def mapAll (f : Tree α → β) : List (Tree α) → List (Tree β)
  | [] => []
  | tree :: rest => map f tree :: mapAll f rest
end

/-- Gives the results, which are in the order of `walkAll`, the shape of the trees; what is left over comes second. -/
def assemble : List (Tree α) → List β → List (Tree β) × List β
  | [], results => ([], results)
  | _ :: _, [] => ([], [])
  | node _ members :: rest, result :: results =>
    let (inner, results) := assemble members results
    let (after, results) := assemble rest results
    (node result inner :: after, results)

end Tree
end MapStyle
