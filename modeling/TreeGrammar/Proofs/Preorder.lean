import TreeGrammar.Tree.Basic

/-!
The nodes of a tree in the order of the source, a node before those below it. The way to a node is
given by the kinds of the nodes on it: the root is not on it, the node itself is its end.
-/
namespace TreeGrammar.Tree

mutual

/-- The nodes of a tree, each with the way to it. The way to the root of the tree is given. -/
def reached (way : List Label) : Tree → List (List Label × Tree)
  | node kind loc children named missing =>
    (way, node kind loc children named missing) :: reachedIn way children

/-- The nodes of trees that stand side by side, where the way to their parent is given. -/
def reachedIn (way : List Label) : List Tree → List (List Label × Tree)
  | [] => []
  | tree :: rest => reached (way ++ [tree.kind]) tree ++ reachedIn way rest

end

/-- The nodes of a tree in preorder. -/
def nodes (tree : Tree) : List Tree :=
  (tree.reached []).map Prod.snd

/-- The nodes below the root of a tree in preorder. -/
def descendants (tree : Tree) : List Tree :=
  tree.children.flatMap nodes

mutual

/-- The ways do not change which nodes there are. -/
theorem map_snd_reached (way : List Label) : (tree : Tree) →
    (tree.reached way).map Prod.snd = tree.nodes
  | node kind loc children named missing => by
    rw [nodes, reached, reached, List.map_cons, List.map_cons, map_snd_reachedIn way children,
      map_snd_reachedIn [] children]

theorem map_snd_reachedIn (way : List Label) : (trees : List Tree) →
    (reachedIn way trees).map Prod.snd = trees.flatMap nodes
  | [] => by rw [reachedIn, List.map_nil, List.flatMap_nil]
  | tree :: rest => by
    rw [reachedIn, List.map_append, map_snd_reached _ tree, map_snd_reachedIn way rest,
      List.flatMap_cons]

end

theorem nodes_eq_cons (tree : Tree) : tree.nodes = tree :: tree.descendants := by
  obtain ⟨kind, loc, children, named, missing⟩ := tree
  rw [nodes, reached, List.map_cons, map_snd_reachedIn]
  rfl

theorem self_mem_nodes (tree : Tree) : tree ∈ tree.nodes := by
  rw [nodes_eq_cons]
  exact List.mem_cons_self

/-- Something holds of all nodes of a tree if it holds of the root and of all nodes of the
children. -/
theorem forall_mem_nodes {P : Tree → Prop} {tree : Tree} :
    (∀ n ∈ tree.nodes, P n) ↔ P tree ∧ ∀ child ∈ tree.children, ∀ n ∈ child.nodes, P n := by
  rw [nodes_eq_cons, List.forall_mem_cons, descendants]
  refine and_congr_right fun _ => ⟨fun h child hchild n hn => ?_, fun h n hn => ?_⟩
  · exact h n (List.mem_flatMap.mpr ⟨child, hchild, hn⟩)
  · obtain ⟨child, hchild, hn⟩ := List.mem_flatMap.mp hn
    exact h child hchild n hn

end TreeGrammar.Tree
