import ScriptFrontend.Tree.Basic

/-!
# Tree/Same — when two trees are equal

Two nodes are the same when their forms, their places and their fields are; fields are the same when
they hold the same texts, or the same nodes in the same order.  `Node.sameWithin` decides this by
turning a tree into the test of being that tree.

A test answers with `some` truth value, or with `none` where the nodes that it has to go into are
nested deeper than a limit.  Tests are put to one thing after the other, up to the first that does
not hold; so different trees can be told apart though both are too deep to be compared as a whole.
-/

namespace ScriptFrontend

/-- Whether two tests pass, the second one being put only if the first one passes. -/
@[macro_inline] def bothPass (first second : Option Bool) : Option Bool :=
  match first with
  | some true => second
  | other => other

/-- Whether tests and values match one by one. -/
def allPass {α : Type} : List (α → Option Bool) → List α → Option Bool
  | [], [] => some true
  | test :: tests, a :: rest => bothPass (test a) (allPass tests rest)
  | _, _ => some false

/-- Whether a field holds what a field of tests asks for. -/
def Field.passes {α : Type} : Field (α → Option Bool) → Field α → Option Bool
  | .text a, .text b => some (a == b)
  | .texts a, .texts b => some (a == b)
  | .node test, .node n => test n
  | .nodes tests, .nodes list =>
    if tests.length = list.length then allPass tests list else some false
  | .absent, .absent => some true
  | _, _ => some false

/-- Whether fields hold, one by one, what fields of tests ask for. -/
def fieldsPass {α : Type} :
    List (String × Field (α → Option Bool)) → List (String × Field α) → Option Bool
  | [], [] => some true
  | (_, test) :: tests, (_, field) :: fields =>
    bothPass (test.passes field) (fieldsPass tests fields)
  | _, _ => some false

namespace Node

/-- The test of being a node, given the tests of being its children. -/
def test (form : Form) (tests : List (String × Field (Nat → Node → Option Bool)))
    (place : Location) : (limit : Nat) → Node → Option Bool
  | 0, _ => none
  | limit + 1, n =>
    if form = n.form ∧ place = n.place then
      fieldsPass (tests.map fun field => (field.1, field.2.map (· limit))) n.fields
    else some false

/-- **Whether two trees are equal**, if that is found out within a limit. -/
def sameWithin (limit : Nat) (a b : Node) : Option Bool := a.fold test limit b

/-- **Whether two trees are equal.** -/
def same (a b : Node) : Option Bool := a.sameWithin recursionLimit b

theorem sameWithin_zero (a b : Node) : a.sameWithin 0 b = none := by
  rw [sameWithin, fold_eq]
  rfl

/-- Two trees are the same when their forms, places and fields are. -/
theorem sameWithin_succ (limit : Nat) (a b : Node) :
    a.sameWithin (limit + 1) b =
      if a.form = b.form ∧ a.place = b.place then
        fieldsPass (a.fields.map fun field => (field.1, field.2.map (sameWithin limit))) b.fields
      else some false := by
  rw [sameWithin, fold_eq]
  simp only [test, List.map_map, Function.comp_def, Field.map_map]
  rfl

end Node

end ScriptFrontend
