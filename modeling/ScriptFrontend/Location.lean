/-!
# Location — a line and a column in a text

A `Location` counts lines and columns, both from 1 in a text of its own.  `Location.after` moves
over one character: a newline starts the next line at column 1, any other character takes one
column.  `Location.past` moves over a list of them.
-/

namespace ScriptFrontend

/-- A place in a text. -/
structure Location where
  line : Int := 1
  column : Int := 1
  deriving DecidableEq, Inhabited

namespace Location

/-- The place of the first character of a text. -/
def start : Location := ⟨1, 1⟩

/-- The place that a node built without one is given. -/
def unplaced : Location := ⟨0, 0⟩

/-- The place behind a character. -/
def after (place : Location) (c : Char) : Location :=
  if c = '\n' then ⟨place.line + 1, 1⟩ else ⟨place.line, place.column + 1⟩

/-- The place behind a list of characters. -/
def past (place : Location) (text : List Char) : Location := text.foldl after place

@[simp] theorem past_nil (place : Location) : place.past [] = place := rfl

@[simp] theorem past_cons (place : Location) (c : Char) (text : List Char) :
    place.past (c :: text) = (place.after c).past text := rfl

theorem past_append (place : Location) (front back : List Char) :
    place.past (front ++ back) = (place.past front).past back := by
  simp [past, List.foldl_append]

end Location

end ScriptFrontend
