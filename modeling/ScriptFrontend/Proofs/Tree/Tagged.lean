import ScriptFrontend.Proofs.Tree.Preorder
import ScriptFrontend.Proofs.Tree.Record
import ScriptFrontend.Proofs.Tree.Slots

/-!
# Proofs/Tree/Tagged — the objects in a record are those of the nodes of the tree

    walk ──nodes──▸ records   =   record ──objects──▸ tagged objects

The objects in a JSON value that have a kind, outer ones first, are its **tagged** ones
(`Json.tagged`).  Those in the record of a tree are the records of its nodes, in the order in which
the walk lists the nodes (`tagged_record`): the record and the walk, each written with a list of its
own to work off, go through the fields of a node alike.
-/

namespace ScriptFrontend

/-! ## Tagged objects -/

namespace Json

mutual

/-- The objects in a value that have a kind, outer ones first. -/
def tagged : Json → List Json
  | .array items => taggedItems items
  | .object members =>
    (if (members.lookup "kind").isSome then [.object members] else []) ++ taggedMembers members
  | _ => []

/-- The objects in some items that have a kind. -/
def taggedItems : List Json → List Json
  | [] => []
  | item :: rest => item.tagged ++ taggedItems rest

/-- The objects in some members that have a kind. -/
def taggedMembers : List (String × Json) → List Json
  | [] => []
  | (_, value) :: rest => value.tagged ++ taggedMembers rest

end

theorem taggedItems_eq (items : List Json) : taggedItems items = items.flatMap tagged := by
  induction items with
  | nil => rfl
  | cons item items ih => rw [taggedItems, ih, List.flatMap_cons]

theorem taggedMembers_eq (members : List (String × Json)) :
    taggedMembers members = members.flatMap fun member => member.2.tagged := by
  induction members with
  | nil => rfl
  | cons member members ih => rw [taggedMembers, ih, List.flatMap_cons]

end Json

/-- The tagged objects in a field are those of the nodes in it. -/
theorem Field.tagged_toJson (field : Field Json) :
    field.toJson.tagged = field.children.flatMap Json.tagged := by
  cases field with
  | text value => rfl
  | texts values => simp [toJson, children, Json.tagged, Json.taggedItems_eq, List.flatMap_map]
  | node record => simp [toJson, children]
  | nodes records => exact Json.taggedItems_eq records
  | absent => rfl

namespace Node

/-- The record of a node is tagged, and then come the tagged objects of its children's records. -/
theorem tagged_record_eq (n : Node) :
    n.record.tagged = n.record :: n.children.flatMap fun child => child.record.tagged := by
  have hfields : (n.fields.map fun field => (field.1, (field.2.map record).toJson)).flatMap
      (fun member => member.2.tagged) = n.children.flatMap fun child => child.record.tagged := by
    rw [children, List.flatMap_assoc, List.flatMap_map]
    simp only [Field.tagged_toJson, Field.children_map, List.flatMap_map]
  rw [record_eq, recordOf, List.map_map, List.cons_append, Json.tagged, Json.taggedMembers_eq,
    List.lookup_cons_self, List.flatMap_cons, List.flatMap_append]
  simpa [Json.tagged, Function.comp_def] using hfields

/-- **The tagged objects in a record** are the records of the nodes, parents first. -/
theorem tagged_record (n : Node) : n.record.tagged = n.preorder.map record := by
  have hchildren : ∀ child ∈ n.children, child.record.tagged = child.preorder.map record := by
    intro child hchild
    have hsmaller := sizeOf_children_lt hchild
    exact tagged_record child
  rw [tagged_record_eq, preorder_eq, List.map_cons, List.map_flatMap,
    List.flatMap_congr hchildren]
termination_by n

/-! ## The members of a record -/

/-- Where no name stands twice, a name is looked up as the value that stands with it. -/
theorem get?_of_mem {members : List (String × Json)} {name : String} {value : Json}
    (hnames : (members.map Prod.fst).Nodup) (hmem : (name, value) ∈ members) :
    (Json.object members).get? name = some value := by
  obtain ⟨front, back, rfl⟩ := List.append_of_mem hmem
  rw [List.map_append, List.map_cons, List.nodup_append] at hnames
  refine List.lookup_eq_some_iff.2 ⟨front, back, rfl, fun member hmember => bne_iff_ne.2 ?_⟩
  exact (hnames.2.2 member.1 (List.mem_map_of_mem hmember) name List.mem_cons_self).symm

/-- **What a record says of its node**: the word of its form, and its place. -/
theorem get?_record (n : Node) :
    n.record.get? "kind" = some (.string n.form.word) ∧
    n.record.get? "line" = some (.int n.place.line) ∧
    n.record.get? "col" = some (.int n.place.column) := by
  rw [record_eq, recordOf]
  refine ⟨get?_of_mem ?_ (by simp), get?_of_mem ?_ (by simp), get?_of_mem ?_ (by simp)⟩ <;>
    simpa [Function.comp_def] using n.nodup_names

/-! ## Walk and record -/

/-- **The walk lists every occurrence of a node once**, first the root and then the walks of its
children, in the order of its fields.  Occurrences are told apart by their addresses; those below a
node stand right behind it.  The record has one object for each of them, in the same order, with the
word and the place of the node. -/
theorem walk_occurrences (n : Node) :
    (n.walk = n :: n.fields.flatMap fun field => field.2.children.flatMap walk) ∧
    n.walk = n.located.map Prod.snd ∧
    (∀ address m, (address, m) ∈ n.located ↔ n.at? address = some m) ∧
    (n.located.map Prod.fst).Nodup ∧
    (∀ address m, n.at? address = some m → ∃ front back,
      n.located = front ++ (m.located.map fun found => (address ++ found.1, found.2)) ++ back ∧
      n.walk = front.map Prod.snd ++ m.walk ++ back.map Prod.snd) ∧
    (fillSlots [(n, 0)] #[none]).size = n.walk.length ∧
    n.slotRecord.tagged = n.walk.map slotRecord ∧
    ∀ m ∈ n.walk, m.slotRecord.get? "kind" = some (.string m.form.word) ∧
      m.slotRecord.get? "line" = some (.int m.place.line) ∧
      m.slotRecord.get? "col" = some (.int m.place.column) := by
  have hwalk (m : Node) : m.walk = m.located.map Prod.snd :=
    m.walk_eq_preorder.trans m.preorder_eq_located
  have hrecord : slotRecord = record := funext slotRecord_eq
  refine ⟨?_, hwalk n, fun address m => mem_located_iff, n.nodup_located,
    fun address m hfound => ?_, ?_, ?_, fun m _ => hrecord ▸ m.get?_record⟩
  · rw [walk_eq, ← funext walk_eq_preorder, children, List.flatMap_assoc]
  · obtain ⟨front, back, hlocated⟩ := exists_located_around hfound
    refine ⟨front, back, hlocated, ?_⟩
    rw [hwalk n, hwalk m, hlocated, List.map_append, List.map_append, List.map_map]
    rfl
  · rw [size_fillSlots_root, walk, length_walkStack, sizeAll_cons, sizeAll_nil, Nat.add_zero]
  · rw [hrecord, walk_eq_preorder, tagged_record]

end Node

end ScriptFrontend
