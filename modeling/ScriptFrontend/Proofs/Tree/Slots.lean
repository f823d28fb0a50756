import ScriptFrontend.Tree.Record

/-!
# Proofs/Tree/Slots — working off a list gives the record that follows the tree

`Node.slotRecord_eq`: the two definitions of a node's record agree, so the one that works off a list
obeys the recursion on the tree (`Node.slotRecord_recursion`).

A node is **drafted** at a slot if its draft is there and its children are drafted at the slots that
the draft names, all further on (`Drafted`).  Working off the pending nodes drafts each of them at
its slot and leaves every other slot as it was (`drafted_fillSlots`); the slots of the pending nodes
are different and there, which is what a step keeps (`Pending`).  Records are then put together from
the last slot on (`getElem?_recordsOf`).

Every slot that is still empty is that of a pending node (`Awaited`), so none is left empty when no
node is pending any more; and there is one slot for each node (`size_fillSlots`).
-/

namespace ScriptFrontend

/-- A node is drafted at a slot, and its children are at the slots that its draft names. -/
inductive Drafted (slots : List (Option Draft)) : Node → Nat → Prop where
  | intro {n : Node} {slot first : Nat} (hslot : slots[slot]? = some (some (n.draft first)))
    (hlater : slot < first)
    (hchildren : ∀ i child, n.children[i]? = some child → Drafted slots child (first + i)) :
    Drafted slots n slot

/-! ## Filling the slots -/

/-- The slots of pending nodes are different and there. -/
structure Pending (pending : List (Node × Nat)) (count : Nat) : Prop where
  nodup : (pending.map Prod.snd).Nodup
  bound : ∀ entry ∈ pending, entry.2 < count

/-- One step keeps the slots of the pending nodes different. -/
theorem Pending.step {n : Node} {slot count : Nat} {pending : List (Node × Nat)}
    (h : Pending ((n, slot) :: pending) count) :
    Pending ((n.children.zipIdx count).reverse ++ pending) (count + n.children.length) where
  nodup := by
    rw [List.map_append, List.map_reverse, List.zipIdx_map_snd, List.nodup_append]
    refine ⟨(List.reverse_perm _).nodup_iff.2 List.nodup_range', (List.nodup_cons.1 h.nodup).2, ?_⟩
    rintro fresh hfresh old hold rfl
    obtain ⟨entry, hentry, rfl⟩ := List.mem_map.1 hold
    have hbound := h.bound entry (List.mem_cons_of_mem _ hentry)
    rw [List.mem_reverse, List.mem_range'_1] at hfresh
    omega
  bound entry hentry := by
    rcases List.mem_append.1 hentry with hfresh | hold
    · have hmem := List.mem_map_of_mem (f := Prod.snd) (List.mem_reverse.1 hfresh)
      rw [List.zipIdx_map_snd, List.mem_range'_1] at hmem
      omega
    · have hbound := h.bound entry (List.mem_cons_of_mem _ hold)
      omega

/-- **What working off pending nodes comes to**: each is drafted at its slot, and the slots of no
pending node are left. -/
theorem drafted_fillSlots (pending : List (Node × Nat)) (slots : Array (Option Draft))
    (h : Pending pending slots.size) :
    (∀ entry ∈ pending, Drafted (fillSlots pending slots).toList entry.1 entry.2) ∧
      ∀ slot < slots.size, slot ∉ pending.map Prod.snd →
        (fillSlots pending slots).toList[slot]? = slots.toList[slot]? := by
  fun_induction fillSlots pending slots with
  | case1 slots => exact ⟨by simp, fun _ _ _ => rfl⟩
  | case2 n slot pending slots ih =>
    have hsize : (slots.setIfInBounds slot (some (n.draft slots.size)) ++
        Array.replicate n.children.length none).size = slots.size + n.children.length := by simp
    rw [hsize] at ih
    obtain ⟨hdrafted, hkept⟩ := ih h.step
    have hslot : slot < slots.size := h.bound _ List.mem_cons_self
    have hrest : slot ∉ pending.map Prod.snd := (List.nodup_cons.1 h.nodup).1
    have hother : ∀ other < slots.size, other ∉ pending.map Prod.snd →
        other ∉ ((n.children.zipIdx slots.size).reverse ++ pending).map Prod.snd := by
      intro other hother hpending hmem
      rw [List.map_append, List.map_reverse, List.zipIdx_map_snd, List.mem_append, List.mem_reverse,
        List.mem_range'_1] at hmem
      rcases hmem with hfresh | hold
      · omega
      · exact hpending hold
    constructor
    · intro entry hentry
      rcases List.mem_cons.1 hentry with rfl | hold
      · refine .intro ?_ hslot ?_
        · rw [hkept slot (by omega) (hother slot hslot hrest)]
          simp [List.getElem?_append, hslot]
        · intro i child hchild
          have hfresh : (child, slots.size + i) ∈ n.children.zipIdx slots.size := by
            refine List.mem_of_getElem? (i := i) ?_
            rw [List.getElem?_zipIdx, hchild]
            rfl
          exact hdrafted _ (List.mem_append_left _ (List.mem_reverse.2 hfresh))
      · exact hdrafted entry (List.mem_append_right _ hold)
    · intro other hbound hnot
      rw [List.map_cons, List.mem_cons, not_or] at hnot
      rw [hkept other (by omega) (hother other hbound hnot.2), Array.toList_append,
        Array.toList_setIfInBounds, List.getElem?_append_left (by simpa using hbound),
        List.getElem?_set_ne (Ne.symm hnot.1)]

/-! ## No slot is left empty -/

/-- Every empty slot is that of a pending node. -/
def Awaited (pending : List (Node × Nat)) (slots : Array (Option Draft)) : Prop :=
  ∀ i : Nat, slots[i]? = some none → i ∈ pending.map Prod.snd

/-- One step fills the slot of its node, and the slots that it adds are those of the children. -/
theorem Awaited.step {n : Node} {slot : Nat} {pending : List (Node × Nat)}
    {slots : Array (Option Draft)} (h : Awaited ((n, slot) :: pending) slots) :
    Awaited ((n.children.zipIdx slots.size).reverse ++ pending)
      (slots.setIfInBounds slot (some (n.draft slots.size)) ++
        Array.replicate n.children.length none) := by
  intro i hi
  rw [List.map_append, List.map_reverse, List.zipIdx_map_snd, List.mem_append, List.mem_reverse,
    List.mem_range'_1]
  rw [Array.getElem?_append, Array.size_setIfInBounds] at hi
  split at hi
  next hold =>
    have hne : slot ≠ i := by
      rintro rfl
      simp [hold] at hi
    rw [Array.getElem?_setIfInBounds_ne hne] at hi
    exact .inr (List.mem_of_ne_of_mem hne.symm (h i hi))
  next hnew =>
    obtain ⟨hbound, -⟩ := Array.getElem?_eq_some_iff.1 hi
    rw [Array.size_replicate] at hbound
    exact .inl ⟨by omega, by omega⟩

/-- **No slot is left empty.** -/
theorem exists_draft_of_mem_fillSlots (pending : List (Node × Nat)) (slots : Array (Option Draft))
    (h : Awaited pending slots) : ∀ slot ∈ fillSlots pending slots, ∃ draft, slot = some draft := by
  fun_induction fillSlots pending slots with
  | case1 slots =>
    intro slot hslot
    obtain ⟨i, hi⟩ := Array.getElem?_of_mem hslot
    refine Option.ne_none_iff_exists'.1 fun hnone => ?_
    simpa using h i (hnone ▸ hi)
  | case2 n slot pending slots ih => exact ih h.step

/-- There is a slot for each node of the pending trees, and nothing else is added. -/
theorem size_fillSlots (pending : List (Node × Nat)) (slots : Array (Option Draft)) :
    (fillSlots pending slots).size + pending.length =
      slots.size + Node.sizeAll (pending.map Prod.fst) := by
  fun_induction fillSlots pending slots with
  | case1 slots => rfl
  | case2 n slot pending slots ih =>
    simp only [List.map_append, List.map_reverse, List.zipIdx_map_fst, List.map_cons,
      Node.sizeAll_append, Node.sizeAll_reverse, Node.sizeAll_cons, n.size_eq, List.length_append,
      List.length_reverse, List.length_zipIdx, List.length_cons, Array.size_append,
      Array.size_setIfInBounds, Array.size_replicate] at ih ⊢
    omega

theorem size_fillSlots_root (n : Node) : (fillSlots [(n, 0)] #[none]).size = n.size := by
  have hsize := size_fillSlots [(n, 0)] #[none]
  simp only [List.length_singleton, List.map_cons, List.map_nil, Node.sizeAll_cons,
    Node.sizeAll_nil, List.size_toArray] at hsize
  omega

/-! ## Putting the records together -/

/-- The records of the slots from one on. -/
theorem drop_recordsOf (first : Nat) (slots : List (Option Draft)) (i : Nat) :
    (recordsOf first slots).drop i = recordsOf (first + i) (slots.drop i) := by
  induction i generalizing first slots with
  | zero => rfl
  | succ i ih =>
    cases slots with
    | nil => rfl
    | cons slot rest =>
      rw [List.drop_succ_cons, Nat.add_comm i 1, ← Nat.add_assoc, ← ih]
      cases slot <;> rw [Nat.add_comm 1 i] <;> rfl

/-- A field whose nodes are named by numbers, with the nodes put back. -/
theorem map_numbered {α : Type} {f : Nat → α} {g : Node → α} (field : Field Node) (first : Nat)
    (h : ∀ i child, field.children[i]? = some child → f (first + i) = g child) :
    (field.numbered first).map f = field.map g := by
  cases field with
  | text | texts | absent => rfl
  | node n => exact congrArg Field.node (h 0 n rfl)
  | nodes list =>
    refine congrArg Field.nodes (List.ext_getElem (by simp) fun i _ hi => ?_)
    rw [List.length_map] at hi
    rw [List.getElem_map, List.getElem_map, List.getElem_range', Nat.one_mul]
    exact h i _ (List.getElem?_eq_getElem hi)

/-- Fields whose nodes are named by numbers, with the nodes put back. -/
theorem map_numberedFields {α : Type} {f : Nat → α} {g : Node → α}
    (fields : List (String × Field Node)) (first : Nat)
    (h : ∀ i child, (fields.flatMap fun field => field.2.children)[i]? = some child →
      f (first + i) = g child) :
    (numberedFields first fields).map (fun field => (field.1, field.2.map f)) =
      fields.map fun field => (field.1, field.2.map g) := by
  induction fields generalizing first with
  | nil => rfl
  | cons entry rest ih =>
    obtain ⟨name, field⟩ := entry
    have hfield : (field.numbered first).map f = field.map g := by
      refine map_numbered field first fun i child hchild => h i child ?_
      rw [List.flatMap_cons, List.getElem?_append_left (List.getElem?_eq_some_iff.1 hchild).1,
        hchild]
    have hrest := ih (first + field.children.length) fun i child hchild => by
      rw [Nat.add_assoc]
      refine h _ child ?_
      rw [List.flatMap_cons, List.getElem?_append_right (Nat.le_add_right _ _),
        Nat.add_sub_cancel_left, hchild]
    rw [numberedFields, List.map_cons, List.map_cons, hfield, hrest]

/-- **The slot of a drafted node has its record.** -/
theorem getElem?_recordsOf {slots : List (Option Draft)} {n : Node} {slot : Nat}
    (h : Drafted slots n slot) : (recordsOf 0 slots)[slot]? = some n.record := by
  induction h with
  | @intro n slot first hslot hlater _ ih =>
    have hdrop : slots.drop slot = some (n.draft first) :: slots.drop (slot + 1) := by
      rw [List.drop_eq_getElem?_toList_append, hslot]
      rfl
    have hlookup (i : Nat) (child : Node) (hchild : n.children[i]? = some child) :
        (((recordsOf (slot + 1) (slots.drop (slot + 1)))[first + i - (slot + 1)]?).getD .null) =
          child.record := by
      have hlater := drop_recordsOf 0 slots (slot + 1)
      rw [Nat.zero_add] at hlater
      rw [← hlater, List.getElem?_drop, Nat.add_sub_cancel' (by omega), ih i child hchild]
      rfl
    have hhere := drop_recordsOf 0 slots slot
    rw [← List.head?_drop, hhere, Nat.zero_add, hdrop, recordsOf, List.head?_cons, Draft.record,
      n.record_eq]
    exact congrArg (fun fields => some (recordOf n.form fields n.place))
      (map_numberedFields n.fields first hlookup)

/-- **Working off a list gives the record that follows the tree.** -/
theorem Node.slotRecord_eq (n : Node) : n.slotRecord = n.record := by
  have hpending : Pending [(n, 0)] 1 := ⟨by simp, by simp⟩
  have hdrafted := (drafted_fillSlots [(n, 0)] #[none] hpending).1 (n, 0) List.mem_cons_self
  rw [slotRecord, List.headD_eq_head?_getD, List.head?_eq_getElem?, getElem?_recordsOf hdrafted]
  rfl

/-! ## The recursion -/

/-- What a field holds as a JSON value, given the records of nodes. -/
def Field.recorded (record : Node → Json) : Field Node → Json
  | .text value => .string value
  | .texts values => .array (values.map .string)
  | .node n => record n
  | .nodes list => .array (list.map record)
  | .absent => .null

theorem Field.toJson_map (record : Node → Json) (field : Field Node) :
    (field.map record).toJson = field.recorded record := by
  cases field <;> rfl

/-- **Working off a list records a tree as recursion on it does.**  The record of a node has its
word, then its fields in order, each with the records of the nodes in it, then its line and its
column, at every level.  Each node of the tree has one slot, and none of them is left empty. -/
theorem Node.slotRecord_recursion (n : Node) :
    n.slotRecord = .object (("kind", .string n.form.word) ::
      n.fields.map (fun field => (field.1, field.2.recorded slotRecord)) ++
        [("line", .int n.place.line), ("col", .int n.place.column)]) ∧
    n.slotRecord = n.record ∧
    (fillSlots [(n, 0)] #[none]).size = n.size ∧
    ∀ slot ∈ fillSlots [(n, 0)] #[none], ∃ draft, slot = some draft := by
  refine ⟨?_, n.slotRecord_eq, size_fillSlots_root n, exists_draft_of_mem_fillSlots _ _ ?_⟩
  · have hsame : slotRecord = record := funext slotRecord_eq
    rw [hsame, n.record_eq, recordOf]
    simp only [List.map_map, Function.comp_def, Field.toJson_map]
  · intro i hi
    obtain ⟨hbound, -⟩ := Array.getElem?_eq_some_iff.1 hi
    simpa using hbound

end ScriptFrontend
