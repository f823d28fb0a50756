import ScriptFrontend.Text.Quoted
import ScriptFrontend.Tree.Name

/-!
# Tree/Shown — a syntax tree on one line

A node is shown by its title and its fields, with texts quoted and without places; a part that is
absent is `None`.  A tree is shown only if its nodes are nested no deeper than a limit.
-/

namespace ScriptFrontend

/-- Texts between brackets, separated by commas. -/
def bracketed (texts : List String) : String := "[" ++ ", ".intercalate texts ++ "]"

/-- A field as it is shown, if the nodes in it are. -/
def Field.shown : Field (Option String) → Option String
  | .text value => some (quoted value)
  | .texts values => some (bracketed (values.map quoted))
  | .node n => n
  | .nodes list => (list.mapM id).map bracketed
  | .absent => some "None"

namespace Node

/-- A node as it is shown, given how its children are. -/
def shownForm (form : Form) (fields : List (String × Field (Nat → Option String)))
    (_ : Location) : (limit : Nat) → Option String
  | 0 => none
  | limit + 1 =>
    let texts := fields.mapM fun field =>
      (field.2.map (· limit)).shown.map fun text => field.1 ++ "=" ++ text
    texts.map fun texts => form.title ++ "(" ++ ", ".intercalate texts ++ ")"

/-- A node as it is shown, if nodes are nested in it no deeper than a limit. -/
def shownWithin (limit : Nat) (n : Node) : Option String := n.fold shownForm limit

/-- **A node as it is shown.** -/
def shown : Node → Option String := shownWithin recursionLimit

end Node

end ScriptFrontend
