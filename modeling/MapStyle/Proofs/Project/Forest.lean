import MapStyle.Project.Basic
/-!
Forests as a line of work. The walk lists every tree before its members, and assembling goes through the results in the same
order, so that each node gets the result of its own tree, wherever it stands.
-/
namespace MapStyle
namespace Tree
variable {α β : Type}

def at? : List (Tree α) → (n : Nat) → (path : List Nat) → Option (Tree α)
  | trees, n, [] => trees[n]?
  | trees, n, m :: path => trees[n]?.bind fun tree => at? tree.members m path

mutual
theorem walk_length : ∀ tree : Tree α, (walk tree).length = size tree
  | node value members => by
    rw [walk, size, List.length_cons, walkAll_length members, Nat.add_comm]

theorem walkAll_length : ∀ trees : List (Tree α), (walkAll trees).length = sizeAll trees
  | [] => rfl
  | tree :: rest => by
    rw [walkAll, sizeAll, List.length_append, walk_length tree, walkAll_length rest]
end

theorem assemble_walkAll (f : Tree α → β) (trees : List (Tree α)) (more : List β) :
    assemble trees ((walkAll trees).map f ++ more) = (mapAll f trees, more) := by
  cases trees with
  | nil => rw [assemble, walkAll, mapAll, List.map_nil, List.nil_append]
  | cons tree rest =>
    cases tree with
    | node value members =>
      simp only [walkAll, walk, List.map_append, List.map_cons, List.cons_append, List.append_assoc, assemble]
      rw [assemble_walkAll f members, assemble_walkAll f rest]
      rfl
termination_by sizeOf trees

theorem mapAll_eq_map (f : Tree α → β) (trees : List (Tree α)) : mapAll f trees = trees.map (map f) := by
  induction trees with
  | nil => rw [mapAll, List.map_nil]
  | cons tree rest ih => rw [mapAll, ih, List.map_cons]

theorem value_map (f : Tree α → β) (tree : Tree α) : (map f tree).value = f tree := by
  cases tree with
  | node value members => rw [map, Tree.value]

theorem members_map (f : Tree α → β) (tree : Tree α) : (map f tree).members = tree.members.map (map f) := by
  cases tree with
  | node value members => rw [map, Tree.members, Tree.members, mapAll_eq_map]

theorem at?_map (f : Tree α → β) (trees : List (Tree α)) (n : Nat) (path : List Nat) :
    at? (trees.map (map f)) n path = (at? trees n path).map (map f) := by
  induction path generalizing trees n with
  | nil => rw [at?, at?, List.getElem?_map]
  | cons m path ih =>
    rw [at?, at?, List.getElem?_map]
    cases trees[n]? with
    | none => rfl
    | some tree => exact (congrArg (at? · m path) (members_map f tree)).trans (ih tree.members m)

end Tree

/-- Results for the layers of a project, in the order in which they are listed for work, one for each that is counted. When they
are assembled, none is left over, whatever comes after them; there are as many trees as before; and wherever a path leads to a
layer of the project, it leads to the result for that layer, with as many members as the layer has, and nowhere else. -/
theorem Project.assemble_layers {β : Type} (project : Project) (compile : LayerTree → β) (more : List β) :
    (Tree.walkAll project.layers).length = project.layerCount ∧
      (Tree.assemble project.layers ((Tree.walkAll project.layers).map compile ++ more)).2 = more ∧
      (Tree.assemble project.layers ((Tree.walkAll project.layers).map compile ++ more)).1.length = project.layers.length ∧
      ∀ n path,
        (Tree.at? (Tree.assemble project.layers ((Tree.walkAll project.layers).map compile ++ more)).1 n path).map
            (fun result => (result.value, result.members.length)) =
          (Tree.at? project.layers n path).map fun layer => (compile layer, layer.members.length) := by
  rw [Tree.assemble_walkAll, Tree.mapAll_eq_map]
  refine ⟨Tree.walkAll_length project.layers, rfl, List.length_map _, fun n path => ?_⟩
  rw [Tree.at?_map, Option.map_map]
  refine congrArg (Option.map · _) (funext fun layer => ?_)
  rw [Function.comp_apply, Tree.value_map, Tree.members_map, List.length_map]

end MapStyle
