import ScriptFrontend.Json.Value
import ScriptFrontend.Tree.Name

/-!
# Tree/Record — a syntax tree as a JSON value

The **record** of a node is an object: its word, its fields in order, its line and its column.  A
child stands in it as its own record, a list of children as an array, an absent part as `null`.

There are two definitions.  `Node.record` follows the tree.  `Node.slotRecord` does not recurse into
the tree: it works off a list of nodes that are still to be drafted, each with the number of the
slot that its draft goes to.  A draft names its children by their slots (`Draft`), which all come
behind its own, so the records are put together from the last slot to the first (`recordsOf`).
-/

namespace ScriptFrontend

/-- A field as a JSON value, the nodes in it being recorded. -/
def Field.toJson : Field Json → Json
  | .text value => .string value
  | .texts values => .array (values.map .string)
  | .node record => record
  | .nodes records => .array records
  | .absent => .null

/-- The record of a node whose children are recorded. -/
def recordOf (form : Form) (fields : List (String × Field Json)) (place : Location) : Json :=
  .object (("kind", .string form.word) :: fields.map (fun field => (field.1, field.2.toJson)) ++
    [("line", .int place.line), ("col", .int place.column)])

/-- **The record of a node**, by recursion on the tree. -/
def Node.record (n : Node) : Json := n.fold recordOf

/-- The record of a node from the records of its children. -/
theorem Node.record_eq (n : Node) :
    n.record = recordOf n.form (n.fields.map fun field => (field.1, field.2.map record)) n.place :=
  n.fold_eq recordOf

/-! ## Slots -/

/-- A node whose children are named by numbers of slots. -/
structure Draft where
  form : Form
  fields : List (String × Field Nat)
  place : Location

/-- A field whose nodes are named by consecutive numbers. -/
def Field.numbered (first : Nat) : Field Node → Field Nat
  | .text value => .text value
  | .texts values => .texts values
  | .node _ => .node first
  | .nodes list => .nodes (List.range' first list.length)
  | .absent => .absent

/-- Fields whose nodes are named by consecutive numbers. -/
def numberedFields (first : Nat) : List (String × Field Node) → List (String × Field Nat)
  | [] => []
  | (name, field) :: rest =>
    (name, field.numbered first) :: numberedFields (first + field.children.length) rest

/-- The draft of a node whose children go to consecutive slots. -/
def Node.draft (first : Nat) (n : Node) : Draft := ⟨n.form, numberedFields first n.fields, n.place⟩

/-- Drafts the pending nodes, the last one found first.  The children of a node get fresh slots. -/
def fillSlots : List (Node × Nat) → Array (Option Draft) → Array (Option Draft)
  | [], slots => slots
  | (n, slot) :: pending, slots =>
    fillSlots ((n.children.zipIdx slots.size).reverse ++ pending)
      (slots.setIfInBounds slot (some (n.draft slots.size)) ++
        Array.replicate n.children.length none)
termination_by pending => Node.sizeAll (pending.map Prod.fst)
decreasing_by
  simp only [List.map_append, List.map_reverse, List.zipIdx_map_fst, List.map_cons,
    Node.sizeAll_append, Node.sizeAll_reverse, Node.sizeAll_cons, n.size_eq]
  omega

/-- The record of a draft, given the records of the slots from the first of its children's on. -/
def Draft.record (draft : Draft) (first : Nat) (later : List Json) : Json :=
  recordOf draft.form
    (draft.fields.map fun field =>
      (field.1, field.2.map fun slot => (later[slot - first]?).getD .null))
    draft.place

/-- The records of consecutive slots, an unfilled one being `null`. -/
def recordsOf (first : Nat) : List (Option Draft) → List Json
  | [] => []
  | slot :: rest =>
    let later := recordsOf (first + 1) rest
    (match slot with
      | some draft => draft.record (first + 1) later
      | none => .null) :: later

/-- **The record of a node**, by working off a list. -/
def Node.slotRecord (n : Node) : Json :=
  (recordsOf 0 (fillSlots [(n, 0)] #[none]).toList).headD .null

end ScriptFrontend
