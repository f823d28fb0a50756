import ScriptFrontend.Kind.Name
import ScriptFrontend.Proofs.Json.Written
import ScriptFrontend.Token.Record
import ScriptFrontend.Tree.Record

/-!
# Proofs/Tree/Record — what a record is made of

The records of tokens and of trees are plain values, and different tokens have different ones
(`Token.record_injective`).

A node is its form, what its fields hold, and its place (`Node.eq_of_parts`).  The form has a word
of its own, and a field is known from its record but for one thing: an empty list may be one of
texts or one of nodes.  Which of the two is a matter of the form and the field's name
(`Form.holdsTexts`).
-/

namespace ScriptFrontend

open Json (Plain)

/-! ## Tokens -/

/-- **A kind is found by its name.** -/
theorem Kind.ofName?_name (kind : Kind) : ofName? kind.name = some kind := by
  have hall : ∀ kind ∈ all, ofName? kind.name = some kind := by decide +kernel
  exact hall kind (mem_all kind)

namespace Token

theorem plain_record (token : Token) : Plain token.record := by
  have hnames : ["kind", "lexeme", "line", "column"].Nodup := by decide
  refine .object hnames fun member hmember => ?_
  simp only [List.mem_cons, List.not_mem_nil, or_false] at hmember
  rcases hmember with rfl | rfl | rfl | rfl
  · exact .string _
  · exact .string _
  · exact .int _
  · exact .int _

/-- **Different tokens have different records.** -/
theorem record_injective {a b : Token} (h : a.record = b.record) : a = b := by
  obtain ⟨kind, lexeme, line, column⟩ := a
  obtain ⟨kind', lexeme', line', column'⟩ := b
  simp only [record, Json.object.injEq, List.cons.injEq, Prod.mk.injEq, Json.string.injEq,
    Json.int.injEq, true_and, and_true] at h
  obtain ⟨hname, rfl, rfl, rfl⟩ := h
  have hkind : some kind = some kind' := by
    rw [← Kind.ofName?_name kind, hname, Kind.ofName?_name]
  rw [Option.some.inj hkind]

end Token

/-! ## The parts of a node -/

namespace Field

/-- The node in a field, if there is one. -/
def node? {α : Type} : Field α → Option α
  | node n => some n
  | _ => none

/-- The nodes in a field, if it lists some. -/
def nodes? {α : Type} : Field α → Option (List α)
  | nodes list => some list
  | _ => none

@[simp] theorem node?_ofNode? {α : Type} (part : Option α) : (ofNode? part).node? = part := by
  cases part <;> rfl

@[simp] theorem nodes?_ofNodes? {α : Type} (part : Option (List α)) :
    (ofNodes? part).nodes? = part := by
  cases part <;> rfl

/-- Whether a field lists texts. -/
def areTexts {α : Type} : Field α → Bool
  | texts _ => true
  | _ => false

end Field

namespace Node

/-- The node of a form with some fields at a place, if there is one. -/
def rebuild (place : Location) : Form → List (Field Node) → Option Node
  | .bare, [] => some (.bare place)
  | .literal, [.text value, .text type] => some (.literal value type place)
  | .identifier, [.text name] => some (.identifier name place)
  | .binary, [.node left, .text operator, .node right] => some (.binary left operator right place)
  | .unary, [.text operator, .node operand] => some (.unary operator operand place)
  | .program, [.nodes body] => some (.program body place)
  | .init, [.text name, .node initializer] => some (.init name initializer place)
  | .assign, [.text name, .node value] => some (.assign name value place)
  | .ifElse, [.node condition, .nodes thenBody, elseBody] =>
    some (.ifElse condition thenBody elseBody.nodes? place)
  | .forLoop, [initializer, condition, increment, .nodes body] =>
    some (.forLoop initializer.node? condition.node? increment.node? body place)
  | .whileLoop, [.node condition, .nodes body] => some (.whileLoop condition body place)
  | .loop, [.nodes body] => some (.loop body place)
  | .repeatLoop, [.nodes body] => some (.repeatLoop body place)
  | .tryCatch, [.nodes tryBody, .nodes catchBody] => some (.tryCatch tryBody catchBody place)
  | .returnStmt, [] => some (.returnStmt place)
  | .breakStmt, [] => some (.breakStmt place)
  | .continueStmt, [] => some (.continueStmt place)
  | .function, [.text name, .texts parameters, .nodes body] =>
    some (.function name parameters body place)
  | .macroRegion, [.text name] => some (.macroRegion name place)
  | .matchCase, [.node pattern, .nodes body] => some (.matchCase pattern body place)
  | .matchWith, [.node subject, .nodes cases, defaultBody] =>
    some (.matchWith subject cases defaultBody.nodes? place)
  | .start, [.nodes body] => some (.start body place)
  | .throw, [.node value] => some (.throw value place)
  | .async, [.nodes body] => some (.async body place)
  | .await, [.node value] => some (.await value place)
  | .mutex, [.nodes body] => some (.mutex body place)
  | .structDecl, [.text name, .texts fields] => some (.structDecl name fields place)
  | .classDecl, [.text name, .nodes body] => some (.classDecl name body place)
  | .alloc, [.text name, .node size] => some (.alloc name size place)
  | .free, [.text name] => some (.free name place)
  | _, _ => none

/-- A node is built from its form, its fields and its place. -/
theorem rebuild_parts (n : Node) : rebuild n.place n.form (n.fields.map Prod.snd) = some n := by
  cases n with
  | ifElse => simp [form, fields, place, rebuild]
  | matchWith => simp [form, fields, place, rebuild]
  | forLoop => simp [form, fields, place, rebuild]
  | _ => rfl

/-- **A node is its form, what its fields hold, and its place.** -/
theorem eq_of_parts {a b : Node} (hform : a.form = b.form)
    (hfields : a.fields.map Prod.snd = b.fields.map Prod.snd) (hplace : a.place = b.place) :
    a = b :=
  Option.some.inj (by rw [← rebuild_parts a, hform, hfields, hplace, rebuild_parts])

end Node

/-- Whether a field of a form lists texts. -/
def Form.holdsTexts (form : Form) (name : String) : Bool :=
  match form with
  | function => name == "parameters"
  | structDecl => name == "fields"
  | _ => false

theorem Node.areTexts_fields (n : Node) :
    ∀ entry ∈ n.fields, entry.2.areTexts = n.form.holdsTexts entry.1 := by
  cases n with
  | ifElse _ _ elseBody =>
    cases elseBody <;> simp [fields, form, Form.holdsTexts, Field.areTexts, Field.ofNodes?]
  | matchWith _ _ defaultBody =>
    cases defaultBody <;> simp [fields, form, Form.holdsTexts, Field.areTexts, Field.ofNodes?]
  | forLoop initializer condition increment =>
    cases initializer <;> cases condition <;> cases increment <;>
      simp [fields, form, Form.holdsTexts, Field.areTexts, Field.ofNode?]
  | _ => simp [fields, form, Form.holdsTexts, Field.areTexts]

/-! ## Trees -/

namespace Node

/-- The names in a record are different. -/
theorem nodup_names (n : Node) :
    ("kind" :: n.fields.map Prod.fst ++ ["line", "col"]).Nodup := by
  cases n <;> simp [fields]

theorem record_object (n : Node) : ∃ members, n.record = .object members :=
  ⟨_, n.record_eq⟩

/-- A record is nothing but an object. -/
theorem record_ne {n : Node} {json : Json} (h : ∀ members, json ≠ .object members) :
    n.record ≠ json := by
  obtain ⟨members, hmembers⟩ := n.record_object
  rintro rfl
  exact h members hmembers

end Node

theorem Field.plain_toJson {field : Field Json} (h : ∀ child ∈ field.children, Plain child) :
    Plain field.toJson := by
  cases field with
  | text value => exact .string value
  | texts values =>
    refine .array fun item hitem => ?_
    obtain ⟨value, -, rfl⟩ := List.mem_map.1 hitem
    exact .string value
  | node record => exact h record List.mem_cons_self
  | nodes records => exact .array h
  | absent => exact .null

/-- The record of a tree is plain, by recursion on the tree. -/
theorem Node.plain_record (n : Node) : Plain n.record := by
  rw [record_eq]
  refine .object ?_ fun member hmember => ?_
  · simpa [Function.comp_def] using n.nodup_names
  · simp only [List.cons_append, List.mem_cons, List.mem_append, List.mem_map, List.not_mem_nil,
      or_false] at hmember
    rcases hmember with rfl | ⟨_, ⟨entry, hentry, rfl⟩, rfl⟩ | rfl | rfl
    · exact .string _
    · refine Field.plain_toJson fun record hrecord => ?_
      rw [Field.children_map] at hrecord
      obtain ⟨child, hchild, rfl⟩ := List.mem_map.1 hrecord
      have hsmaller := sizeOf_children_lt (List.mem_flatMap.2 ⟨entry, hentry, hchild⟩)
      exact plain_record child
    · exact .int _
    · exact .int _
termination_by n

end ScriptFrontend
