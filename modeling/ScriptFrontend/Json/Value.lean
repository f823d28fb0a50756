import ScriptFrontend.Decimal.Binary64

/-!
# Json/Value — JSON values

The members of an object keep their order.  Integers are unbounded and are not floating-point
numbers: `1` and `1.0` are different values, though `Json.sameKey` calls them the same.
-/

namespace ScriptFrontend

/-- A JSON value. -/
inductive Json where
  | null
  | bool (value : Bool)
  | int (value : Int)
  | float (value : Binary64)
  | string (value : String)
  | array (items : List Json)
  | object (members : List (String × Json))
  deriving Inhabited

namespace Json

/-- The most digits that an integer may have that is read from a text or shown in one. -/
def longestInteger : Nat := 4300

/-- The value of a member of an object. -/
def get? (json : Json) (name : String) : Option Json :=
  match json with
  | .object members => members.lookup name
  | _ => none

/-- Members with one more: a name that is there already keeps its place and takes the new value. -/
def put (members : List (String × Json)) (name : String) (value : Json) : List (String × Json) :=
  match members with
  | [] => [(name, value)]
  | (other, old) :: rest =>
    if other = name then (name, value) :: rest else (other, old) :: put rest name value

/-- The integer that a truth value or an integer counts as. -/
def integer? : Json → Option Int
  | .bool value => some (if value then 1 else 0)
  | .int value => some value
  | _ => none

/-- Whether two values are the same as keys: texts by their characters, numbers and truth values as
numbers, arrays item by item. -/
def sameKey : Json → Json → Bool
  | .null, .null => true
  | .string a, .string b => a == b
  | .array [], .array [] => true
  | .array (a :: as), .array (b :: bs) => sameKey a b && sameKey (.array as) (.array bs)
  | .float a, .float b => a.numericallyEqual b
  | .float a, b => b.integer?.any a.isInteger
  | a, .float b => a.integer?.any b.isInteger
  | a, b =>
    match a.integer?, b.integer? with
    | some m, some n => m == n
    | _, _ => false

end Json

end ScriptFrontend
