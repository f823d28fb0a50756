import ScriptFrontend.Location

/-!
# Tree/Basic — syntax trees

A **node** of a syntax tree has a form, the fields that belong to the form, and a place.  There are
30 forms (`Form`): the four of expressions, the statements, the entry of a match, the whole program,
and a bare node without fields.

`Node.fields` is the generic view of a node: the names of its fields, in order, with what they hold.
Whatever is said of all forms alike — the children, the record, the display, equality — is said
through it.  `sizeOf_children_lt` is what lets such functions recurse into the children.

Trees are compared and shown by recursion, and the nodes of a tree may be nested only so deep for
that (`Node.recursionLimit`).  Walking a tree and recording it need no such limit.
-/

namespace ScriptFrontend

/-- The form of a node. -/
inductive Form where
  | bare | literal | identifier | binary | unary | program | init | assign | ifElse | forLoop
  | whileLoop | loop | repeatLoop | tryCatch | returnStmt | breakStmt | continueStmt | function
  | macroRegion | matchCase | matchWith | start | throw | async | await | mutex | structDecl
  | classDecl | alloc | free
  deriving DecidableEq, Inhabited

/-- A node of a syntax tree. -/
inductive Node where
  /-- A node without fields. -/
  | bare (place : Location)
  /-- A number or a text that stands for itself. -/
  | literal (value type : String) (place : Location)
  | identifier (name : String) (place : Location)
  | binary (left : Node) (operator : String) (right : Node) (place : Location)
  | unary (operator : String) (operand : Node) (place : Location)
  | program (body : List Node) (place : Location)
  /-- `Init name = initializer;` -/
  | init (name : String) (initializer : Node) (place : Location)
  /-- `name = value;` -/
  | assign (name : String) (value : Node) (place : Location)
  /-- `if (condition) then_body else else_body` -/
  | ifElse (condition : Node) (thenBody : List Node) (elseBody : Option (List Node))
    (place : Location)
  | forLoop (initializer condition increment : Option Node) (body : List Node) (place : Location)
  | whileLoop (condition : Node) (body : List Node) (place : Location)
  | loop (body : List Node) (place : Location)
  | repeatLoop (body : List Node) (place : Location)
  /-- `try tryBody catch catchBody` -/
  | tryCatch (tryBody catchBody : List Node) (place : Location)
  /-- `Return;` -/
  | returnStmt (place : Location)
  /-- `Break;` -/
  | breakStmt (place : Location)
  /-- `Continue;` -/
  | continueStmt (place : Location)
  | function (name : String) (parameters : List String) (body : List Node) (place : Location)
  /-- A named region whose tokens are not kept. -/
  | macroRegion (name : String) (place : Location)
  /-- `Case pattern : body`, an entry of a match. -/
  | matchCase (pattern : Node) (body : List Node) (place : Location)
  /-- `Match (subject)` with its cases and the body of its default. -/
  | matchWith (subject : Node) (cases : List Node) (defaultBody : Option (List Node))
    (place : Location)
  /-- `Start body Return;` -/
  | start (body : List Node) (place : Location)
  | throw (value : Node) (place : Location)
  | async (body : List Node) (place : Location)
  | await (value : Node) (place : Location)
  | mutex (body : List Node) (place : Location)
  | structDecl (name : String) (fields : List String) (place : Location)
  | classDecl (name : String) (body : List Node) (place : Location)
  | alloc (name : String) (size : Node) (place : Location)
  | free (name : String) (place : Location)
  deriving Inhabited

/-- What a field of a node holds. -/
inductive Field (α : Type) where
  | text (text : String)
  | texts (texts : List String)
  | node (node : α)
  | nodes (nodes : List α)
  /-- An optional part that is not there. -/
  | absent
  deriving DecidableEq

namespace Field

/-- The nodes that a field holds, in order. -/
def children {α : Type} : Field α → List α
  | node n => [n]
  | nodes list => list
  | _ => []

/-- The field with a function applied to each of its nodes. -/
def map {α β : Type} (f : α → β) : Field α → Field β
  | text value => text value
  | texts values => texts values
  | node n => node (f n)
  | nodes list => nodes (list.map f)
  | absent => absent

/-- The field with a function applied to each of its nodes, which may use that they are in it. -/
def mapChildren {α β : Type} : (field : Field α) → ((a : α) → a ∈ field.children → β) → Field β
  | text value, _ => text value
  | texts values, _ => texts values
  | node n, f => node (f n (by simp [children]))
  | nodes list, f => nodes (list.attach.map fun member => f member.1 member.2)
  | absent, _ => absent

@[simp] theorem mapChildren_eq_map {α β : Type} (field : Field α) (f : α → β) :
    (field.mapChildren fun a _ => f a) = field.map f := by
  cases field <;> simp [mapChildren, map]

@[simp] theorem children_map {α β : Type} (field : Field α) (f : α → β) :
    (field.map f).children = field.children.map f := by
  cases field <;> simp [map, children]

@[simp] theorem map_map {α β γ : Type} (field : Field α) (f : α → β) (g : β → γ) :
    (field.map f).map g = field.map fun a => g (f a) := by
  cases field <;> simp [map]

/-- An optional node. -/
def ofNode? {α : Type} : Option α → Field α
  | some n => node n
  | none => absent

/-- An optional list of nodes. -/
def ofNodes? {α : Type} : Option (List α) → Field α
  | some list => nodes list
  | none => absent

theorem mem_children_ofNode? {α : Type} {n : α} {part : Option α} :
    n ∈ (ofNode? part).children ↔ part = some n := by
  cases part <;> simp [ofNode?, children, eq_comm]

theorem mem_children_ofNodes? {α : Type} {n : α} {part : Option (List α)} :
    n ∈ (ofNodes? part).children ↔ ∃ list, part = some list ∧ n ∈ list := by
  cases part <;> simp [ofNodes?, children]

end Field

namespace Node

/-- The form of a node. -/
def form : Node → Form
  | bare .. => .bare
  | literal .. => .literal
  | identifier .. => .identifier
  | binary .. => .binary
  | unary .. => .unary
  | program .. => .program
  | init .. => .init
  | assign .. => .assign
  | ifElse .. => .ifElse
  | forLoop .. => .forLoop
  | whileLoop .. => .whileLoop
  | loop .. => .loop
  | repeatLoop .. => .repeatLoop
  | tryCatch .. => .tryCatch
  | returnStmt .. => .returnStmt
  | breakStmt .. => .breakStmt
  | continueStmt .. => .continueStmt
  | function .. => .function
  | macroRegion .. => .macroRegion
  | matchCase .. => .matchCase
  | matchWith .. => .matchWith
  | start .. => .start
  | throw .. => .throw
  | async .. => .async
  | await .. => .await
  | mutex .. => .mutex
  | structDecl .. => .structDecl
  | classDecl .. => .classDecl
  | alloc .. => .alloc
  | free .. => .free

/-- The place of a node. -/
def place : Node → Location
  | bare place | literal _ _ place | identifier _ place | binary _ _ _ place | unary _ _ place
  | program _ place | init _ _ place | assign _ _ place | ifElse _ _ _ place
  | forLoop _ _ _ _ place | whileLoop _ _ place | loop _ place | repeatLoop _ place
  | tryCatch _ _ place | returnStmt place | breakStmt place | continueStmt place
  | function _ _ _ place | macroRegion _ place | matchCase _ _ place | matchWith _ _ _ place
  | start _ place | throw _ place | async _ place | await _ place | mutex _ place
  | structDecl _ _ place | classDecl _ _ place | alloc _ _ place | free _ place => place

/-- **The fields of a node**, named, in order. -/
def fields : Node → List (String × Field Node)
  | bare _ | returnStmt _ | breakStmt _ | continueStmt _ => []
  | literal value type _ => [("value", .text value), ("literal_type", .text type)]
  | identifier name _ | macroRegion name _ | free name _ => [("name", .text name)]
  | binary left operator right _ =>
    [("left", .node left), ("operator", .text operator), ("right", .node right)]
  | unary operator operand _ => [("operator", .text operator), ("operand", .node operand)]
  | program body _ | loop body _ | repeatLoop body _ | start body _ | async body _
  | mutex body _ => [("body", .nodes body)]
  | init name initializer _ => [("name", .text name), ("initializer", .node initializer)]
  | assign name value _ => [("name", .text name), ("value", .node value)]
  | ifElse condition thenBody elseBody _ =>
    [("condition", .node condition), ("then_body", .nodes thenBody),
      ("else_body", .ofNodes? elseBody)]
  | forLoop initializer condition increment body _ =>
    [("initializer", .ofNode? initializer), ("condition", .ofNode? condition),
      ("increment", .ofNode? increment), ("body", .nodes body)]
  | whileLoop condition body _ => [("condition", .node condition), ("body", .nodes body)]
  | tryCatch tryBody catchBody _ => [("try_body", .nodes tryBody), ("catch_body", .nodes catchBody)]
  | function name parameters body _ =>
    [("name", .text name), ("parameters", .texts parameters), ("body", .nodes body)]
  | matchCase pattern body _ => [("pattern", .node pattern), ("body", .nodes body)]
  | matchWith subject cases defaultBody _ =>
    [("subject", .node subject), ("cases", .nodes cases), ("default_body", .ofNodes? defaultBody)]
  | throw value _ | await value _ => [("value", .node value)]
  | structDecl name fields _ => [("name", .text name), ("fields", .texts fields)]
  | classDecl name body _ => [("name", .text name), ("body", .nodes body)]
  | alloc name size _ => [("name", .text name), ("size", .node size)]

/-- **The children of a node**, in the order of its fields. -/
def children (n : Node) : List Node := n.fields.flatMap fun field => field.2.children

/-- A child is smaller than its node. -/
theorem sizeOf_children_lt {n child : Node} (h : child ∈ n.children) : sizeOf child < sizeOf n := by
  have inside {list : List Node} (h : child ∈ list) : sizeOf child < sizeOf list :=
    List.sizeOf_lt_of_mem h
  cases n with
  | bare | returnStmt | breakStmt | continueStmt | literal | identifier | macroRegion | free
  | structDecl =>
    simp [children, fields, Field.children] at h
  | unary | init | assign | throw | await | alloc =>
    simp only [children, fields, Field.children, List.flatMap_cons, List.flatMap_nil,
      List.append_nil, List.nil_append, List.mem_singleton] at h
    simp [h]
    omega
  | binary =>
    simp only [children, fields, Field.children, List.flatMap_cons, List.flatMap_nil,
      List.append_nil, List.nil_append, List.mem_append, List.mem_singleton] at h
    rcases h with rfl | rfl <;> simp <;> omega
  | program | loop | repeatLoop | start | async | mutex | function | classDecl =>
    have := inside (by simpa [children, fields, Field.children] using h)
    simp
    omega
  | tryCatch =>
    simp only [children, fields, Field.children, List.flatMap_cons, List.flatMap_nil,
      List.append_nil, List.mem_append] at h
    rcases h with h | h <;> have := inside h <;> simp <;> omega
  | whileLoop | matchCase =>
    simp only [children, fields, Field.children, List.flatMap_cons, List.flatMap_nil,
      List.append_nil, List.mem_append, List.mem_singleton] at h
    rcases h with rfl | h
    · simp; omega
    · have := inside h
      simp
      omega
  | ifElse | matchWith =>
    simp only [children, fields, Field.children, List.flatMap_cons, List.flatMap_nil,
      List.append_nil, List.mem_append, List.mem_singleton] at h
    rcases h with rfl | h | h
    · simp; omega
    · have := inside h
      simp
      omega
    · obtain ⟨list, rfl, inList⟩ := Field.mem_children_ofNodes?.1 h
      have := inside inList
      simp
      omega
  | forLoop =>
    simp only [children, fields, Field.children, List.flatMap_cons, List.flatMap_nil,
      List.append_nil, List.mem_append] at h
    rcases h with h | h | h | h
    · obtain rfl := Field.mem_children_ofNode?.1 h
      simp
      omega
    · obtain rfl := Field.mem_children_ofNode?.1 h
      simp
      omega
    · obtain rfl := Field.mem_children_ofNode?.1 h
      simp
      omega
    · have := inside h
      simp
      omega

/-- **What a node is worth**, given what its form, its fields with the worth of each child in place
of the child, and its place are worth together. -/
def fold {α : Type} (f : Form → List (String × Field α) → Location → α) (n : Node) : α :=
  f n.form
    (n.fields.attach.map fun entry =>
      (entry.1.1, entry.1.2.mapChildren fun child _ => child.fold f))
    n.place
termination_by n
decreasing_by
  next inField => exact sizeOf_children_lt (List.mem_flatMap.2 ⟨entry.1, entry.2, inField⟩)

/-- The worth of a node from the worths of its children. -/
theorem fold_eq {α : Type} (f : Form → List (String × Field α) → Location → α) (n : Node) :
    n.fold f = f n.form (n.fields.map fun entry => (entry.1, entry.2.map (fold f))) n.place := by
  rw [fold]
  simp only [Field.mapChildren_eq_map]
  exact congrArg (f n.form · n.place) (List.attach_map_val (l := n.fields)
    (f := fun entry => (entry.1, entry.2.map (fold f))))

/-- How deep nodes may be nested in a tree that is compared with another one, or shown. -/
def recursionLimit : Nat := 300

/-- The number of nodes in a tree. -/
def size (n : Node) : Nat :=
  n.fold fun _ fields _ => (fields.flatMap fun field => field.2.children).foldr (· + ·) 0 + 1

/-- The number of nodes in some trees together. -/
def sizeAll (list : List Node) : Nat := (list.map size).foldr (· + ·) 0

/-- A tree has one node more than its children together. -/
theorem size_eq (n : Node) : n.size = sizeAll n.children + 1 := by
  rw [size, fold_eq]
  simp only [sizeAll, children, List.flatMap_map, Field.children_map, List.map_flatMap]
  rfl

@[simp] theorem sizeAll_nil : sizeAll [] = 0 := rfl

@[simp] theorem sizeAll_cons (n : Node) (list : List Node) :
    sizeAll (n :: list) = n.size + sizeAll list := rfl

@[simp] theorem sizeAll_append (front back : List Node) :
    sizeAll (front ++ back) = sizeAll front + sizeAll back := by
  induction front with
  | nil => simp
  | cons n front ih => simp [ih, Nat.add_assoc]

@[simp] theorem sizeAll_reverse (list : List Node) : sizeAll list.reverse = sizeAll list := by
  induction list with
  | nil => rfl
  | cons n list ih => simp [ih, Nat.add_comm]

end Node

end ScriptFrontend
