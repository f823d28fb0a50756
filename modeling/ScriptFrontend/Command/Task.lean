/-!
# Command/Task — what the command is asked to do

The source text and all paths are sequences of Unicode scalar values.  A text with the two halves of
a surrogate pair as characters of their own is no source.
-/

namespace ScriptFrontend

/-- What is written of a source text. -/
inductive Mode where
  | tokens
  | tree
  deriving DecidableEq, Inhabited

namespace Mode

/-- The name of a mode. -/
def name : Mode → String
  | tokens => "tokens"
  | tree => "ast"

/-- The mode of a name; any name but that of the tokens stands for the tree. -/
def ofName (name : String) : Mode := if name = tokens.name then tokens else tree

/-- The mode of exactly a name. -/
def ofName? (name : String) : Option Mode :=
  if name = tokens.name then some tokens else if name = tree.name then some tree else none

/-- A mode as it is shown; none is shown as an empty list. -/
def shown : Option Mode → String
  | some mode => mode.name
  | none => "[]"

theorem ofName?_name (mode : Mode) : ofName? mode.name = some mode := by
  cases mode <;> decide

end Mode

/-- What the command is asked to do. -/
structure Task where
  /-- The source text, or the path of a file that holds it. -/
  source : String
  /-- Whether `source` is the text itself. -/
  isText : Bool := false
  /-- What is written; the tree if it is none. -/
  mode : Option Mode := some .tree
  /-- The path of the file to write to; an empty one stands for none. -/
  out : Option String := none
  /-- Whether every item is written on a line of its own. -/
  pretty : Bool := false
  /-- The path of a file of aliases; an empty one stands for none. -/
  aliases : Option String := none
  /-- Whether the aliases are listed. -/
  listAliases : Bool := false
  deriving DecidableEq, Inhabited

/-- A path that is given and not empty. -/
def givenPath (path : Option String) : Option String := path.filter (· ≠ "")

end ScriptFrontend
