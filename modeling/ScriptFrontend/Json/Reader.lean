import ScriptFrontend.Json.Value

/-!
# Json/Reader — reading JSON

`Json.read` reads a text that holds one JSON value and blanks around it.  Beyond the standard it
accepts the numbers `NaN`, `Infinity` and `-Infinity`; of members with one name it keeps the last
value in the first one's place.  A number with a fraction or an exponent is a floating-point number,
any other an integer, of at most `longestInteger` digits.

Arrays and objects may be nested as deep as a limit says; `Json.readWithin` takes the limit for the
digits of an integer as an argument too.  Each reader answers with what is left of the text and with
the proof that this is shorter, so every loop ends with the text.

A text that is not JSON has a `JsonFlaw`.  Texts hold Unicode scalar values only, so an escape that
names half of a surrogate pair alone stands for the replacement character U+FFFD; names that differ
in such an escape are one name.
-/

namespace ScriptFrontend

/-- Why a text cannot be read as JSON. -/
inductive JsonFlaw where
  /-- The text does not follow the grammar. -/
  | malformed
  /-- Arrays and objects are nested deeper than allowed. -/
  | tooDeep
  /-- An integer has too many digits. -/
  | longInteger (digits : Nat)
  deriving DecidableEq

namespace Json

/-- How far reading goes. -/
structure Limits where
  /-- How deep arrays and objects may be nested. -/
  depth : Nat
  /-- The most digits that an integer may have. -/
  digits : Nat

/-- A shorter text. -/
abbrev Shorter (text : List Char) := { rest : List Char // rest.length < text.length }

/-- A part of a text that was read, and what is left. -/
abbrev Part (α : Type) (text : List Char) := Except JsonFlaw (α × Shorter text)

/-- A shorter text of a text that is itself no longer than another one. -/
def Shorter.weaken {small large : List Char} (h : small.length ≤ large.length)
    (rest : Shorter small) : Shorter large :=
  ⟨rest.1, Nat.lt_of_lt_of_le rest.2 h⟩

/-- The part read from a text, seen from a text that is no shorter. -/
def Part.weaken {α : Type} {small large : List Char} (h : small.length ≤ large.length)
    (part : Part α small) : Part α large :=
  match part with
  | .ok (a, rest) => .ok (a, rest.weaken h)
  | .error flaw => .error flaw

/-- What was read, with a function applied to it. -/
def Part.map {α β : Type} {text : List Char} (f : α → β) (part : Part α text) : Part β text :=
  match part with
  | .ok (a, rest) => .ok (f a, rest)
  | .error flaw => .error flaw

/-- The blanks of JSON. -/
def isGap (c : Char) : Bool := c == ' ' || c == '\t' || c == '\n' || c == '\r'

/-- A text without the blanks in front. -/
def skipGap (text : List Char) : List Char := text.dropWhile isGap

theorem length_skipGap_le (text : List Char) : (skipGap text).length ≤ text.length :=
  (List.dropWhile_suffix _).length_le

/-! ## Texts -/

/-- The value of a hexadecimal digit. -/
def hexValue? (c : Char) : Option Nat :=
  if c.isDigit then some (c.toNat - 48)
  else if 'a' ≤ c ∧ c ≤ 'f' then some (c.toNat - 87)
  else if 'A' ≤ c ∧ c ≤ 'F' then some (c.toNat - 55)
  else none

/-- The number that four hexadecimal digits spell. -/
def hexNumber? (a b c d : Char) : Option Nat := do
  let a ← hexValue? a
  let b ← hexValue? b
  let c ← hexValue? c
  let d ← hexValue? d
  some (((a * 16 + b) * 16 + c) * 16 + d)

/-- Whether a number is the first half of a surrogate pair. -/
def isHighHalf (n : Nat) : Bool := 0xd800 ≤ n && n ≤ 0xdbff

/-- Whether a number is the second half of a surrogate pair. -/
def isLowHalf (n : Nat) : Bool := 0xdc00 ≤ n && n ≤ 0xdfff

/-- The character that a number stands for, U+FFFD for half of a surrogate pair. -/
def unitChar (n : Nat) : Char := if isHighHalf n || isLowHalf n then '\ufffd' else Char.ofNat n

/-- The character that a surrogate pair stands for. -/
def pairChar (high low : Nat) : Char :=
  Char.ofNat (0x10000 + (high - 0xd800) * 0x400 + (low - 0xdc00))

/-- The character that a letter stands for behind a backslash. -/
def escapeTable : List (Char × Char) := [
  ('"', '"'), ('\\', '\\'), ('/', '/'), ('b', '\x08'), ('f', '\x0c'), ('n', '\n'), ('r', '\r'),
  ('t', '\t')]

/-- The characters of a text up to its closing quote; those read so far are given in reverse. -/
def textBody (read : List Char) : (text : List Char) → Part (List Char) text
  | [] => .error .malformed
  | '"' :: rest => .ok (read.reverse, ⟨rest, by simp⟩)
  | '\\' :: 'u' :: a :: b :: c :: d :: '\\' :: 'u' :: e :: f :: g :: h :: rest =>
    match hexNumber? a b c d, hexNumber? e f g h with
    | some high, some low =>
      if isHighHalf high && isLowHalf low then
        (textBody (pairChar high low :: read) rest).weaken (by simp only [List.length_cons]; omega)
      else
        (textBody (unitChar high :: read) ('\\' :: 'u' :: e :: f :: g :: h :: rest)).weaken
          (by simp only [List.length_cons]; omega)
    | _, _ => .error .malformed
  | '\\' :: 'u' :: a :: b :: c :: d :: rest =>
    match hexNumber? a b c d with
    | some unit =>
      (textBody (unitChar unit :: read) rest).weaken (by simp only [List.length_cons]; omega)
    | none => .error .malformed
  | '\\' :: letter :: rest =>
    match escapeTable.lookup letter with
    | some c => (textBody (c :: read) rest).weaken (by simp only [List.length_cons]; omega)
    | none => .error .malformed
  | c :: rest =>
    if c.toNat < 0x20 ∨ c = '\\' then .error .malformed
    else (textBody (c :: read) rest).weaken (by simp only [List.length_cons]; omega)
termination_by text => text.length

/-! ## Numbers -/

/-- Digits behind a given character, and the rest; no digits unless there is at least one. -/
def digitsBehind (mark : Char) (text : List Char) : List Char × List Char :=
  match text with
  | c :: rest =>
    if c = mark ∧ (rest.takeWhile Char.isDigit) ≠ [] then
      (rest.takeWhile Char.isDigit, rest.dropWhile Char.isDigit)
    else ([], text)
  | [] => ([], text)

/-- The number that decimal digits spell. -/
def decimalNumber (digits : List Char) : Nat :=
  digits.foldl (fun value c => value * 10 + (c.toNat - 48)) 0

/-- An exponent, if one is spelled out in front of the rest. -/
def exponent? (text : List Char) : Option Int × List Char :=
  match text with
  | mark :: rest =>
    if mark = 'e' ∨ mark = 'E' then
      let sign := rest.head?.filter fun c => c == '+' || c == '-'
      let body := if sign.isSome then rest.tail else rest
      match body.takeWhile Char.isDigit with
      | [] => (none, text)
      | digits =>
        let size : Int := decimalNumber digits
        (some (if sign = some '-' then -size else size), body.dropWhile Char.isDigit)
    else (none, text)
  | [] => (none, text)

/-- The integer part of a number: a zero, or digits that do not start with one. -/
def wholeDigits (text : List Char) : List Char × List Char :=
  match text with
  | '0' :: rest => (['0'], rest)
  | _ => (text.takeWhile Char.isDigit, text.dropWhile Char.isDigit)

theorem length_digitsBehind_le (mark : Char) (text : List Char) :
    (digitsBehind mark text).2.length ≤ text.length := by
  unfold digitsBehind
  split
  next c rest =>
    split
    next =>
      have := (List.dropWhile_suffix Char.isDigit (l := rest)).length_le
      simp only [List.length_cons]
      omega
    next => exact Nat.le_refl _
  next => exact Nat.le_refl _

theorem length_exponent?_le (text : List Char) : (exponent? text).2.length ≤ text.length := by
  unfold exponent?
  split
  next mark rest =>
    split
    next =>
      dsimp only
      generalize hb : (if (rest.head?.filter fun c => c == '+' || c == '-').isSome then rest.tail
        else rest) = body
      have shorter : body.length ≤ rest.length := by
        subst hb
        split <;> simp
      split
      next => exact Nat.le_refl _
      next =>
        have := (List.dropWhile_suffix Char.isDigit (l := body)).length_le
        simp only [List.length_cons]
        omega
    next => exact Nat.le_refl _
  next => exact Nat.le_refl _

theorem length_wholeDigits_lt {text : List Char} (h : (wholeDigits text).1 ≠ []) :
    (wholeDigits text).2.length < text.length := by
  revert h
  unfold wholeDigits
  split
  next => simp
  next =>
    intro h
    have whole := congrArg List.length
      (List.takeWhile_append_dropWhile (p := Char.isDigit) (l := text))
    have some := List.length_pos_iff.2 h
    simp only [List.length_append] at whole some ⊢
    omega

/-- A number behind its sign, an integer having at most `longest` digits. -/
def unsigned (longest : Nat) (negative : Bool) (text : List Char) : Part Json text :=
  if h : (wholeDigits text).1 = [] then .error .malformed
  else
    let whole := wholeDigits text
    let fraction := digitsBehind '.' whole.2
    let exponent := exponent? fraction.2
    have shorter : exponent.2.length < text.length :=
      Nat.lt_of_le_of_lt (length_exponent?_le _)
        (Nat.lt_of_le_of_lt (length_digitsBehind_le _ _) (length_wholeDigits_lt h))
    if fraction.1 = [] ∧ exponent.1 = none then
      if whole.1.length > longest then .error (.longInteger whole.1.length)
      else
        let size : Int := decimalNumber whole.1
        .ok (.int (if negative then -size else size), ⟨exponent.2, shorter⟩)
    else
      .ok (.float (Binary64.ofDecimal negative (decimalNumber (whole.1 ++ fraction.1))
        (exponent.1.getD 0 - fraction.1.length)), ⟨exponent.2, shorter⟩)

/-! ## Values -/

/-- A value spelled by a given word. -/
def spelled (word : String) (value : Json) (text : List Char) : Part Json text :=
  if h : word.toList ≠ [] ∧ word.toList.isPrefixOf text = true then
    .ok (value, ⟨text.drop word.toList.length, by
      obtain ⟨rest, rfl⟩ := List.isPrefixOf_iff_prefix.1 h.2
      have := List.length_pos_iff.2 h.1
      simp only [List.length_drop, List.length_append]
      omega⟩)
  else .error .malformed

/-- A value that is neither an array nor an object. -/
def scalar (longest : Nat) : (text : List Char) → Part Json text
  | '"' :: rest =>
    ((textBody [] rest).weaken (by simp)).map fun body => .string (String.ofList body)
  | 'n' :: rest => spelled "null" .null ('n' :: rest)
  | 't' :: rest => spelled "true" (.bool true) ('t' :: rest)
  | 'f' :: rest => spelled "false" (.bool false) ('f' :: rest)
  | 'N' :: rest => spelled "NaN" (.float .nan) ('N' :: rest)
  | 'I' :: rest => spelled "Infinity" (.float (.infinity false)) ('I' :: rest)
  | '-' :: 'I' :: rest => spelled "-Infinity" (.float (.infinity true)) ('-' :: 'I' :: rest)
  | '-' :: rest => (unsigned longest true rest).weaken (by simp)
  | text => unsigned longest false text

/-- A reader of the values inside an array or an object. -/
abbrev ValueReader := (text : List Char) → Part Json text

/-- The items of an array from the first one on; those read so far are given in reverse. -/
def items (inner : ValueReader) (read : List Json) (text : List Char) : Part (List Json) text :=
  match inner (skipGap text) with
  | .error flaw => .error flaw
  | .ok (item, behind) =>
    match h : skipGap behind.1 with
    | ',' :: rest =>
      have shorter : rest.length < text.length := by
        have := length_skipGap_le behind.1
        have := length_skipGap_le text
        have := behind.2
        rw [h] at *
        simp only [List.length_cons] at *
        omega
      (items inner (item :: read) rest).weaken (Nat.le_of_lt shorter)
    | ']' :: rest => .ok ((item :: read).reverse, ⟨rest, by
        have := length_skipGap_le behind.1
        have := length_skipGap_le text
        have := behind.2
        rw [h] at *
        simp only [List.length_cons] at *
        omega⟩)
    | _ => .error .malformed
termination_by text.length

/-- A name of a member and the colon behind it. -/
def memberName (text : List Char) : Part String text :=
  match skipGap text, length_skipGap_le text with
  | '"' :: rest, bound =>
    match textBody [] rest with
    | .error flaw => .error flaw
    | .ok (name, behind) =>
      match h : skipGap behind.1 with
      | ':' :: rest' => .ok (String.ofList name, ⟨rest', by
          have := length_skipGap_le behind.1
          have := behind.2
          rw [h] at *
          simp only [List.length_cons] at *
          omega⟩)
      | _ => .error .malformed
  | _, _ => .error .malformed

/-- The members of an object from the first one on, added to those read so far. -/
def members (inner : ValueReader) (read : List (String × Json)) (text : List Char) :
    Part (List (String × Json)) text :=
  match memberName text with
  | .error flaw => .error flaw
  | .ok (name, colon) =>
    match inner (skipGap colon.1) with
    | .error flaw => .error flaw
    | .ok (value, behind) =>
      match h : skipGap behind.1 with
      | ',' :: rest =>
        have shorter : rest.length < text.length := by
          have := length_skipGap_le behind.1
          have := length_skipGap_le colon.1
          have := behind.2
          have := colon.2
          rw [h] at *
          simp only [List.length_cons] at *
          omega
        (members inner (put read name value) rest).weaken (Nat.le_of_lt shorter)
      | '\x7d' :: rest => .ok (put read name value, ⟨rest, by
          have := length_skipGap_le behind.1
          have := length_skipGap_le colon.1
          have := behind.2
          have := colon.2
          rw [h] at *
          simp only [List.length_cons] at *
          omega⟩)
      | _ => .error .malformed
termination_by text.length

/-- An array behind its opening bracket. -/
def arrayBody (inner : ValueReader) (text : List Char) : Part Json text :=
  match h : skipGap text with
  | ']' :: rest => .ok (.array [], ⟨rest, by
      have := length_skipGap_le text
      rw [h] at this
      exact this⟩)
  | _ => (items inner [] text).map .array

/-- An object behind its opening brace. -/
def objectBody (inner : ValueReader) (text : List Char) : Part Json text :=
  match h : skipGap text with
  | '\x7d' :: rest => .ok (.object [], ⟨rest, by
      have := length_skipGap_le text
      rw [h] at this
      exact this⟩)
  | _ => (members inner [] text).map .object

/-- A value in which arrays and objects are nested at most as deep as there is room. -/
def value (longest : Nat) : (room : Nat) → ValueReader
  | 0, '[' :: _ => .error .tooDeep
  | 0, '\x7b' :: _ => .error .tooDeep
  | room + 1, '[' :: rest => (arrayBody (value longest room) rest).weaken (by simp)
  | room + 1, '\x7b' :: rest => (objectBody (value longest room) rest).weaken (by simp)
  | _, text => scalar longest text

/-- **The JSON value that a text holds**, read within limits. -/
def readWithin (limits : Limits) (text : String) : Except JsonFlaw Json :=
  match value limits.digits limits.depth (skipGap text.toList) with
  | .error flaw => .error flaw
  | .ok (json, rest) => if (skipGap rest.1).isEmpty then .ok json else .error .malformed

/-- The JSON value that a text holds, in which arrays and objects are nested at most as deep as
there is room. -/
def read (room : Nat) (text : String) : Except JsonFlaw Json :=
  readWithin ⟨room, longestInteger⟩ text

end Json

end ScriptFrontend
