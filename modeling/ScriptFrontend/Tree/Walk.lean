import ScriptFrontend.Tree.Basic

/-!
# Tree/Walk — the nodes of a tree, parents first

`Node.walk` lists a node and everything below it, each node before its children and children in
order.  It keeps a stack of the nodes still to be listed.  `Node.preorder` is the same list by
recursion on the tree.
-/

namespace ScriptFrontend.Node

/-- The nodes of the trees on a stack, the first tree first. -/
def walkStack : List Node → List Node
  | [] => []
  | n :: stack => n :: walkStack (n.children ++ stack)
termination_by stack => sizeAll stack
decreasing_by
  simp only [sizeAll_append, sizeAll_cons, n.size_eq]
  omega

/-- **The nodes of a tree**, parents first. -/
def walk (n : Node) : List Node := walkStack [n]

/-- The nodes of a tree, by recursion on the tree. -/
def preorder (n : Node) : List Node :=
  n :: (n.children.attach.map fun child => child.1.preorder).flatten
termination_by n
decreasing_by exact sizeOf_children_lt child.2

/-- A tree's nodes are its root and then its children's nodes. -/
theorem preorder_eq (n : Node) : n.preorder = n :: n.children.flatMap preorder := by
  rw [preorder, List.flatMap_def]
  simp

end ScriptFrontend.Node
