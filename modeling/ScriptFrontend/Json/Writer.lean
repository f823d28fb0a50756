import ScriptFrontend.Decimal.Shortest
import ScriptFrontend.Json.Value
import ScriptFrontend.Text.Quoted

/-!
# Json/Writer — writing JSON

`Json.compact` writes a value on one line with a blank behind each comma and colon; `Json.pretty`
gives every item and member a line of its own, indented by two more blanks than its surroundings.
Both write ASCII only: a character outside the visible ones is an escape of four hexadecimal digits,
or two of them (a surrogate pair) above U+FFFF.
-/

namespace ScriptFrontend.Json

/-! ## Texts -/

/-- A number of 16 bits as an escape. -/
def unitEscape (n : Nat) : List Char := '\\' :: 'u' :: hexDigits 4 n

/-- A character of a text. -/
def escapeChar (c : Char) : List Char :=
  if c = '"' then ['\\', '"']
  else if c = '\\' then ['\\', '\\']
  else if c = '\n' then ['\\', 'n']
  else if c = '\r' then ['\\', 'r']
  else if c = '\t' then ['\\', 't']
  else if c = '\x08' then ['\\', 'b']
  else if c = '\x0c' then ['\\', 'f']
  else if 0x20 ≤ c.toNat ∧ c.toNat < 0x7f then [c]
  else if c.toNat < 0x10000 then unitEscape c.toNat
  else
    let above := c.toNat - 0x10000
    unitEscape (0xd800 + above / 0x400) ++ unitEscape (0xdc00 + above % 0x400)

/-- A text in quotes. -/
def writtenText (text : String) : String :=
  String.ofList ('"' :: text.toList.flatMap escapeChar ++ ['"'])

/-- A number of floating point. -/
def writtenFloat (value : Binary64) : String :=
  match value with
  | .nan => "NaN"
  | .infinity negative => if negative then "-Infinity" else "Infinity"
  | finite => finite.text

/-- A value that is neither an array nor an object. -/
def writtenScalar : Json → String
  | .null => "null"
  | .bool value => if value then "true" else "false"
  | .int value => toString value
  | .float value => writtenFloat value
  | .string value => writtenText value
  | .array _ => "[]"
  | .object _ => "\x7b\x7d"

/-! ## Layout -/

/-- What is written around items: behind an opening bracket, behind a comma, and in front of the
closing bracket, at a depth. -/
structure Layout where
  opening : Nat → String
  comma : Nat → String
  closing : Nat → String

/-- Everything on one line. -/
def Layout.compact : Layout := ⟨fun _ => "", fun _ => ", ", fun _ => ""⟩

/-- A newline and two blanks for each level of depth. -/
def newLine (depth : Nat) : String := "\n" ++ String.ofList (List.replicate (2 * depth) ' ')

/-- Every item on a line of its own. -/
def Layout.pretty : Layout :=
  ⟨fun depth => newLine (depth + 1), fun depth => "," ++ newLine (depth + 1), newLine⟩

mutual

/-- A text with a value written behind it. -/
def writeBehind (layout : Layout) (depth : Nat) (out : String) : Json → String
  | .array (first :: rest) =>
    writeItems layout depth
      (writeBehind layout (depth + 1) (out ++ "[" ++ layout.opening depth) first) rest ++
      layout.closing depth ++ "]"
  | .object ((name, first) :: rest) =>
    writeMembers layout depth
      (writeBehind layout (depth + 1)
        (out ++ "\x7b" ++ layout.opening depth ++ writtenText name ++ ": ") first) rest ++
      layout.closing depth ++ "\x7d"
  | scalar => out ++ writtenScalar scalar

/-- A text with the further items of an array behind it. -/
def writeItems (layout : Layout) (depth : Nat) (out : String) : List Json → String
  | [] => out
  | item :: rest =>
    writeItems layout depth (writeBehind layout (depth + 1) (out ++ layout.comma depth) item) rest

/-- A text with the further members of an object behind it. -/
def writeMembers (layout : Layout) (depth : Nat) (out : String) : List (String × Json) → String
  | [] => out
  | (name, value) :: rest =>
    writeMembers layout depth
      (writeBehind layout (depth + 1)
        (out ++ layout.comma depth ++ writtenText name ++ ": ") value) rest

end

/-- **A value on one line.** -/
def compact (json : Json) : String := writeBehind .compact 0 "" json

/-- **A value with every item on a line of its own.** -/
def pretty (json : Json) : String := writeBehind .pretty 0 "" json

/-! ## Depth -/

mutual

/-- How deep arrays and objects are nested in a value. -/
def depth : Json → Nat
  | .array items => depthOfItems items + 1
  | .object members => depthOfMembers members + 1
  | _ => 0

/-- How deep they are nested in the deepest item. -/
def depthOfItems : List Json → Nat
  | [] => 0
  | item :: rest => max item.depth (depthOfItems rest)

/-- How deep they are nested in the deepest member. -/
def depthOfMembers : List (String × Json) → Nat
  | [] => 0
  | (_, value) :: rest => max value.depth (depthOfMembers rest)

end

end ScriptFrontend.Json
