import Mathlib.Data.List.Forall2
import ScriptFrontend.Tree.Same
import ScriptFrontend.Tree.Shown

/-!
# Proofs/Tree/Depth — how deep trees are, and which can be shown

The **depth** of a tree is the number of nodes on its longest way down.

* `isSome_shownWithin_iff` — exactly the trees whose depth is within the limit are shown.
* `depth_sum` — a chain of operators is a tree as deep as the chain is long, so there are trees
  beyond every limit.
-/

namespace ScriptFrontend.Node

/-- **How deep nodes are nested in a tree**, the tree itself being one. -/
def depth (n : Node) : Nat :=
  n.fold fun _ fields _ => (fields.flatMap fun field => field.2.children).foldr max 0 + 1

theorem depth_eq (n : Node) : n.depth = (n.children.map depth).foldr max 0 + 1 := by
  rw [depth, fold_eq]
  simp only [children, List.flatMap_map, Field.children_map, List.map_flatMap]
  rfl

theorem depth_pos (n : Node) : 0 < n.depth := by
  rw [depth_eq]
  exact Nat.succ_pos _

/-- A tree is one node deeper than the deepest of its children. -/
theorem depth_le_succ_iff {n : Node} {limit : Nat} :
    n.depth ≤ limit + 1 ↔ ∀ child ∈ n.children, child.depth ≤ limit := by
  rw [depth_eq, Nat.succ_le_succ_iff]
  induction n.children with
  | nil => simp
  | cons child rest ih =>
    rw [List.map_cons, List.foldr_cons, Nat.max_le, ih, List.forall_mem_cons]

/-! ## Trees that can be shown -/

theorem shownWithin_zero (n : Node) : n.shownWithin 0 = none := by
  rw [shownWithin, fold_eq]
  rfl

/-- A node is shown by its title and its fields. -/
theorem shownWithin_succ (limit : Nat) (n : Node) :
    n.shownWithin (limit + 1) =
      (n.fields.mapM fun field : String × Field Node =>
        (field.2.map (shownWithin limit)).shown.map fun text => field.1 ++ "=" ++ text).map
          fun texts => n.form.title ++ "(" ++ ", ".intercalate texts ++ ")" := by
  rw [shownWithin, fold_eq]
  simp only [shownForm, List.mapM_map, Function.comp_def, Field.map_map]
  rfl

theorem isSome_mapM_iff {α β : Type} {f : α → Option β} {list : List α} :
    (list.mapM f).isSome ↔ ∀ a ∈ list, (f a).isSome := by
  induction list with
  | nil => simp
  | cons a list ih =>
    rw [List.mapM_cons, List.forall_mem_cons, ← ih]
    cases f a <;> cases list.mapM f <;> simp

/-- A field is shown if its nodes are. -/
theorem isSome_shown_map_iff {field : Field Node} {limit : Nat} :
    (field.map (shownWithin limit)).shown.isSome ↔
      ∀ child ∈ field.children, (child.shownWithin limit).isSome := by
  cases field <;> simp [Field.map, Field.shown, Field.children, isSome_mapM_iff]

/-- **Exactly the trees within a limit are shown**, by induction on the limit. -/
theorem isSome_shownWithin_iff {n : Node} {limit : Nat} :
    (n.shownWithin limit).isSome ↔ n.depth ≤ limit := by
  induction limit generalizing n with
  | zero => simp [shownWithin_zero, Nat.ne_of_gt n.depth_pos]
  | succ limit ih =>
    simp only [shownWithin_succ, Option.isSome_map, isSome_mapM_iff, isSome_shown_map_iff, ih,
      depth_le_succ_iff, children, List.forall_mem_flatMap]

/-! ## Chains of operators -/

/-- `1 + 1 + … + 1`, with a number of additions. -/
def sum : (additions : Nat) → Node
  | 0 => literal "1" "int" .start
  | additions + 1 => binary (sum additions) "+" (literal "1" "int" .start) .start

theorem children_sum (additions : Nat) :
    (sum (additions + 1)).children = [sum additions, literal "1" "int" .start] := rfl

/-- **A chain is as deep as it is long.** -/
theorem depth_sum (additions : Nat) : (sum additions).depth = additions + 1 := by
  have hleaf (value type : String) (place : Location) : (literal value type place).depth = 1 := by
    rw [depth_eq]
    rfl
  induction additions with
  | zero => exact hleaf _ _ _
  | succ additions ih =>
    rw [depth_eq, children_sum, List.map_cons, List.map_cons, ih, hleaf]
    simp

end ScriptFrontend.Node
