import Mathlib.Data.List.Basic
import ScriptFrontend.Tree.Walk

/-!
# Proofs/Tree/Preorder — the walk with a stack follows the tree

The nodes that a stack leads to are those of its trees, one tree after the other: pushing the
children of a node in front of what is left puts them where the recursion on the tree has them.

A node may be found in several places of a tree, so places are told apart by **addresses**: an
address says which child to go to from the root on (`Node.at?`).  `Node.located` lists the nodes of
a tree with their addresses.  Each address of a node is listed once (`mem_located_iff`,
`nodup_located`), and what is below it stands right behind it (`exists_located_around`).
-/

namespace ScriptFrontend.Node

/-- **A stack leads to the nodes of its trees**, one tree after the other. -/
theorem walkStack_eq (stack : List Node) : walkStack stack = stack.flatMap preorder := by
  fun_induction walkStack stack with
  | case1 => rfl
  | case2 n stack ih =>
    rw [ih, List.flatMap_append, List.flatMap_cons, preorder_eq, List.cons_append]

/-- A stack leads to as many nodes as its trees have together. -/
theorem length_walkStack (stack : List Node) : (walkStack stack).length = sizeAll stack := by
  fun_induction walkStack stack with
  | case1 => rfl
  | case2 n stack ih =>
    rw [List.length_cons, ih, sizeAll_append, sizeAll_cons, n.size_eq]
    omega

theorem walk_eq_preorder (n : Node) : n.walk = n.preorder := by
  rw [walk, walkStack_eq, List.flatMap_cons, List.flatMap_nil, List.append_nil]

/-- The root comes first, and then the nodes of its children. -/
theorem walk_eq (n : Node) : n.walk = n :: n.children.flatMap preorder :=
  n.walk_eq_preorder.trans n.preorder_eq

/-! ## Addresses -/

/-- The node at an address, if there is one. -/
def at? (n : Node) : List Nat → Option Node
  | [] => some n
  | i :: address => n.children[i]?.bind fun child => child.at? address

/-- The nodes of a tree with their addresses, parents first. -/
def located (n : Node) : List (List Nat × Node) :=
  ([], n) :: (n.children.attach.map fun child => child.1.located).zipIdx.flatMap fun entry =>
    entry.1.map fun found => (entry.2 :: found.1, found.2)
termination_by n
decreasing_by exact sizeOf_children_lt child.2

/-- The nodes of a numbered tree, the number in front of their addresses. -/
def under (entry : Node × Nat) : List (List Nat × Node) :=
  entry.1.located.map fun found => (entry.2 :: found.1, found.2)

/-- First there is the root, and then the nodes of its children, under the children's numbers. -/
theorem located_eq (n : Node) : n.located = ([], n) :: n.children.zipIdx.flatMap under := by
  rw [located, List.attach_map_val (f := located), List.zipIdx_map, List.flatMap_map]
  rfl

/-- **The walk lists the nodes as they are located.** -/
theorem preorder_eq_located (n : Node) : n.preorder = n.located.map Prod.snd := by
  have hunder : ∀ entry ∈ n.children.zipIdx, entry.1.preorder = (under entry).map Prod.snd := by
    intro entry hentry
    have hsmaller := sizeOf_children_lt (List.fst_mem_of_mem_zipIdx hentry)
    rw [preorder_eq_located entry.1, under, List.map_map]
    rfl
  have hchildren : n.children.flatMap preorder =
      n.children.zipIdx.flatMap fun entry => entry.1.preorder := by
    rw [← List.flatMap_map (f := Prod.fst), List.zipIdx_map_fst]
  rw [preorder_eq, located_eq, List.map_cons, List.map_flatMap, hchildren,
    List.flatMap_congr hunder]
termination_by n

theorem mem_under_iff {entry : Node × Nat} {i : Nat} {address : List Nat} {m : Node} :
    (i :: address, m) ∈ under entry ↔ entry.2 = i ∧ (address, m) ∈ entry.1.located := by
  simp only [under, List.mem_map, Prod.exists, Prod.mk.injEq, List.cons.injEq]
  constructor
  · rintro ⟨_, _, hmem, ⟨rfl, rfl⟩, rfl⟩
    exact ⟨rfl, hmem⟩
  · rintro ⟨rfl, hmem⟩
    exact ⟨address, m, hmem, ⟨rfl, rfl⟩, rfl⟩

/-- An address of a node below a numbered tree starts with the number. -/
theorem exists_cons_of_mem_under {entry : Node × Nat} {found : List Nat × Node}
    (h : found ∈ under entry) : ∃ address, found.1 = entry.2 :: address := by
  obtain ⟨inner, -, rfl⟩ := List.mem_map.1 h
  exact ⟨inner.1, rfl⟩

/-- **A node is located where it is found.** -/
theorem mem_located_iff {address : List Nat} {n m : Node} :
    (address, m) ∈ n.located ↔ n.at? address = some m := by
  induction address generalizing n with
  | nil =>
    have hnot : ([], m) ∉ n.children.zipIdx.flatMap under := by
      intro hmem
      obtain ⟨entry, -, hunder⟩ := List.mem_flatMap.1 hmem
      obtain ⟨_, hcons⟩ := exists_cons_of_mem_under hunder
      exact List.cons_ne_nil _ _ hcons.symm
    rw [located_eq, List.mem_cons, at?, or_iff_left hnot]
    simp [eq_comm]
  | cons i address ih =>
    rw [located_eq, List.mem_cons, at?, Option.bind_eq_some_iff]
    simp only [List.mem_flatMap, Prod.exists, mem_under_iff, ih, Prod.mk.injEq, reduceCtorEq,
      false_and, false_or]
    constructor
    · rintro ⟨child, j, hchild, rfl, hrest⟩
      exact ⟨child, List.mk_mem_zipIdx_iff_getElem?.1 hchild, hrest⟩
    · rintro ⟨child, hchild, hrest⟩
      exact ⟨child, i, List.mk_mem_zipIdx_iff_getElem?.2 hchild, rfl, hrest⟩

/-- The numbers of numbered trees grow. -/
theorem pairwise_zipIdx (list : List Node) :
    list.zipIdx.Pairwise fun entry later => entry.2 < later.2 := by
  rw [← List.pairwise_map (f := Prod.snd) (R := (· < ·)), List.zipIdx_map_snd]
  exact List.pairwise_lt_range'

/-- Addresses grow along the tree. -/
theorem growing_located (n : Node) : (n.located.map Prod.fst).Pairwise (· < ·) := by
  rw [located_eq, List.map_cons, List.pairwise_cons, List.pairwise_map, List.pairwise_flatMap]
  refine ⟨?_, ?_, (pairwise_zipIdx n.children).imp ?_⟩
  · intro address haddress
    obtain ⟨found, hfound, rfl⟩ := List.mem_map.1 haddress
    obtain ⟨entry, -, hunder⟩ := List.mem_flatMap.1 hfound
    obtain ⟨inner, hinner⟩ := exists_cons_of_mem_under hunder
    rw [hinner]
    exact List.nil_lt_cons _ _
  · intro entry hentry
    have hsmaller := sizeOf_children_lt (List.fst_mem_of_mem_zipIdx hentry)
    rw [under, List.pairwise_map]
    exact (List.pairwise_map.1 (growing_located entry.1)).imp fun h => List.cons_lt_cons_self.2 h
  · intro entry later hlt found hfound next hnext
    obtain ⟨inner, hinner⟩ := exists_cons_of_mem_under hfound
    obtain ⟨other, hother⟩ := exists_cons_of_mem_under hnext
    rw [hinner, hother]
    exact List.cons_lt_cons_iff.2 (.inl hlt)
termination_by n

/-- No address is listed twice. -/
theorem nodup_located (n : Node) : (n.located.map Prod.fst).Nodup := by
  refine n.growing_located.imp ?_
  rintro address _ hlt rfl
  exact List.lt_irrefl address hlt

/-- **What is below a node stands right behind it.** -/
theorem exists_located_around {address : List Nat} {n m : Node} (h : n.at? address = some m) :
    ∃ front back, n.located =
      front ++ (m.located.map fun found => (address ++ found.1, found.2)) ++ back := by
  induction address generalizing n with
  | nil =>
    obtain rfl := Option.some.inj h
    exact ⟨[], [], by simp⟩
  | cons i address ih =>
    obtain ⟨child, hchild, hrest⟩ := Option.bind_eq_some_iff.1 h
    obtain ⟨front, back, hlocated⟩ := ih hrest
    obtain ⟨before, after, hsplit⟩ := List.append_of_mem (List.mk_mem_zipIdx_iff_getElem?.2 hchild)
    -- around the child's own list stand the root, and its siblings' lists before and behind
    refine ⟨([], n) :: before.flatMap under ++ front.map fun found => (i :: found.1, found.2),
      (back.map fun found => (i :: found.1, found.2)) ++ after.flatMap under, ?_⟩
    rw [located_eq, hsplit, List.flatMap_append, List.flatMap_cons, under, hlocated]
    simp

end ScriptFrontend.Node
