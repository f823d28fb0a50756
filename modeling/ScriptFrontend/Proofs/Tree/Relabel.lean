import ScriptFrontend.Tree.Basic

/-!
# Proofs/Tree/Relabel — trees with other texts and other places

`Node.relabel text move` changes every text of a tree — names, operators, the values of literals —
by one function and every place by another one, and leaves the rest as it is.  With the constant
place it forgets where the nodes stand (`Node.unplaced`), so trees are **equal up to places** if
what is left of them is equal.
-/

namespace ScriptFrontend.Node

section Relabel

variable (text : String → String) (move : Location → Location)

mutual

/-- **A tree with other texts and places.**  The type of a literal stays. -/
def relabel : Node → Node
  | bare place => .bare (move place)
  | literal value type place => .literal (text value) type (move place)
  | identifier name place => .identifier (text name) (move place)
  | binary left operator right place =>
    .binary (relabel left) (text operator) (relabel right) (move place)
  | unary operator operand place => .unary (text operator) (relabel operand) (move place)
  | program body place => .program (relabelAll body) (move place)
  | init name initializer place => .init (text name) (relabel initializer) (move place)
  | assign name value place => .assign (text name) (relabel value) (move place)
  | ifElse condition thenBody elseBody place =>
    .ifElse (relabel condition) (relabelAll thenBody) (relabelAll? elseBody) (move place)
  | forLoop initializer condition increment body place =>
    .forLoop (relabel? initializer) (relabel? condition) (relabel? increment) (relabelAll body)
      (move place)
  | whileLoop condition body place =>
    .whileLoop (relabel condition) (relabelAll body) (move place)
  | loop body place => .loop (relabelAll body) (move place)
  | repeatLoop body place => .repeatLoop (relabelAll body) (move place)
  | tryCatch tryBody catchBody place =>
    .tryCatch (relabelAll tryBody) (relabelAll catchBody) (move place)
  | returnStmt place => .returnStmt (move place)
  | breakStmt place => .breakStmt (move place)
  | continueStmt place => .continueStmt (move place)
  | function name parameters body place =>
    .function (text name) (parameters.map text) (relabelAll body) (move place)
  | macroRegion name place => .macroRegion (text name) (move place)
  | matchCase pattern body place =>
    .matchCase (relabel pattern) (relabelAll body) (move place)
  | matchWith subject cases defaultBody place =>
    .matchWith (relabel subject) (relabelAll cases) (relabelAll? defaultBody) (move place)
  | start body place => .start (relabelAll body) (move place)
  | throw value place => .throw (relabel value) (move place)
  | async body place => .async (relabelAll body) (move place)
  | await value place => .await (relabel value) (move place)
  | mutex body place => .mutex (relabelAll body) (move place)
  | structDecl name fields place => .structDecl (text name) (fields.map text) (move place)
  | classDecl name body place => .classDecl (text name) (relabelAll body) (move place)
  | alloc name size place => .alloc (text name) (relabel size) (move place)
  | free name place => .free (text name) (move place)

/-- Trees with other texts and places. -/
def relabelAll : List Node → List Node
  | [] => []
  | n :: rest => relabel n :: relabelAll rest

/-- An optional tree with other texts and places. -/
def relabel? : Option Node → Option Node
  | none => none
  | some n => some (relabel n)

/-- Optional trees with other texts and places. -/
def relabelAll? : Option (List Node) → Option (List Node)
  | none => none
  | some list => some (relabelAll list)

end

/-! The parts of a node are relabelled one by one. -/

@[simp] theorem relabelAll_eq_map (list : List Node) :
    relabelAll text move list = list.map (relabel text move) := by
  induction list with
  | nil => rfl
  | cons n rest ih => rw [relabelAll, ih, List.map_cons]

@[simp] theorem relabel?_eq_map (part : Option Node) :
    relabel? text move part = part.map (relabel text move) := by
  cases part <;> rfl

@[simp] theorem relabelAll?_eq_map (part : Option (List Node)) :
    relabelAll? text move part = part.map (List.map (relabel text move)) := by
  cases part
  · rfl
  · rw [relabelAll?, relabelAll_eq_map]; rfl

end Relabel

/-- **A tree without its places.** -/
def unplaced (n : Node) : Node := n.relabel id fun _ => .unplaced

end ScriptFrontend.Node
