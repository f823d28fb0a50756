import ScriptFrontend.Decimal.Shortest
import ScriptFrontend.Json.Value
import ScriptFrontend.Text.Quoted

/-!
# Json/Shown — a JSON value inside a message

A message shows a value with its texts quoted as `quoted` does it, with `None`, `True` and `False`
for the three words of JSON, and with the shortest digits of a floating-point number.  A text that
is itself what the message is about stands there bare (`Json.bare`).

Not every value can be shown (`Unshown`).  Each array and object is gone through inside the one
around it, and they may be nested as deep as a limit says; and an integer may have as many digits as
one that is read.
-/

namespace ScriptFrontend.Json

/-- Why a value cannot be shown. -/
inductive Unshown where
  /-- Arrays and objects are nested deeper than allowed. -/
  | tooDeep
  /-- An integer has too many digits. -/
  | longInteger (digits : Nat)
  deriving DecidableEq

/-- How deep arrays and objects may be nested in a value that is gone through by recursion. -/
def recursionLimit : Nat := 995

/-- An integer as it is shown. -/
def shownInteger (value : Int) : Except Unshown String :=
  let digits := (Nat.toDigits 10 value.natAbs).length
  if digits > longestInteger then .error (.longInteger digits) else .ok (toString value)

mutual

/-- A value as it is shown inside a message, arrays and objects being nested no deeper than a
limit. -/
def shown : (limit : Nat) → Json → Except Unshown String
  | _, .null => .ok "None"
  | _, .bool value => .ok (if value then "True" else "False")
  | _, .int value => shownInteger value
  | _, .float value => .ok value.text
  | _, .string value => .ok (quoted value)
  | 0, .array _ => .error .tooDeep
  | 0, .object _ => .error .tooDeep
  | limit + 1, .array items => do
    let texts ← shownItems limit items
    return "[" ++ ", ".intercalate texts ++ "]"
  | limit + 1, .object members => do
    let texts ← shownMembers limit members
    return "\x7b" ++ ", ".intercalate texts ++ "\x7d"

/-- Each item as it is shown. -/
def shownItems (limit : Nat) : List Json → Except Unshown (List String)
  | [] => .ok []
  | item :: rest => do
    let text ← item.shown limit
    let texts ← shownItems limit rest
    return text :: texts

/-- Each member as it is shown. -/
def shownMembers (limit : Nat) : List (String × Json) → Except Unshown (List String)
  | [] => .ok []
  | (name, value) :: rest => do
    let text ← value.shown limit
    let texts ← shownMembers limit rest
    return (quoted name ++ ": " ++ text) :: texts

end

/-- A value as a message shows it that is about the value: a text stands without quotes. -/
def bare (limit : Nat) : Json → Except Unshown String
  | .string value => .ok value
  | json => json.shown limit

end ScriptFrontend.Json
