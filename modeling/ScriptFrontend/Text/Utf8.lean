/-!
# Text/Utf8 — reading bytes as text

`Utf8.decode` reads bytes as UTF-8 and stops at the first byte that rules the text out.  A character
starts with a byte that says how many bytes follow it and between which bounds the first of them
lies (`Utf8.lead?`); the bounds keep out surrogates, numbers past U+10FFFF, and forms longer than
needed.

What is wrong with the bytes is a `Utf8.Flaw`: a reason, and the bytes of the character that it
concerns.
-/

namespace ScriptFrontend.Utf8

/-- Why bytes are not a text. -/
inductive Reason where
  /-- The byte cannot start a character. -/
  | badStart
  /-- A character is not continued as it has to be. -/
  | badContinuation
  /-- The bytes end inside a character. -/
  | cutShort
  deriving DecidableEq

/-- The character at which bytes are not a text: its first byte, the place of that byte, and how
many bytes it concerns. -/
structure Flaw where
  reason : Reason
  byte : UInt8
  offset : Nat
  length : Nat
  deriving DecidableEq

/-- The two lower-case hexadecimal digits of a byte. -/
def byteDigits (byte : UInt8) : String :=
  String.ofList [Nat.digitChar (byte.toNat / 16), Nat.digitChar (byte.toNat % 16)]

/-- What a flaw says. -/
def Flaw.message (flaw : Flaw) : String :=
  let span :=
    if flaw.length = 1 then
      "byte 0x" ++ byteDigits flaw.byte ++ " in position " ++ toString flaw.offset
    else
      "bytes in position " ++ toString flaw.offset ++ "-" ++
        toString (flaw.offset + flaw.length - 1)
  let reason :=
    match flaw.reason with
    | .badStart => "invalid start byte"
    | .badContinuation => "invalid continuation byte"
    | .cutShort => "unexpected end of data"
  "'utf-8' codec can't decode " ++ span ++ ": " ++ reason

/-- What is owed of a character: how many bytes, the bounds of the next one, and the number that the
bytes so far stand for. -/
structure Owed where
  count : Nat
  low : Nat
  high : Nat
  value : Nat

/-- What the first byte of a longer character leaves owed. -/
def lead? (b : Nat) : Option Owed :=
  if 0xc2 ≤ b ∧ b ≤ 0xdf then some ⟨1, 0x80, 0xbf, b - 0xc0⟩
  else if 0xe0 ≤ b ∧ b ≤ 0xef then
    some ⟨2, if b = 0xe0 then 0xa0 else 0x80, if b = 0xed then 0x9f else 0xbf, b - 0xe0⟩
  else if 0xf0 ≤ b ∧ b ≤ 0xf4 then
    some ⟨3, if b = 0xf0 then 0x90 else 0x80, if b = 0xf4 then 0x8f else 0xbf, b - 0xf0⟩
  else none

mutual

/-- Reads bytes from the start of a character; `offset` bytes are in front of them. -/
def between (offset : Nat) : List UInt8 → Except Flaw (List Char)
  | [] => .ok []
  | byte :: rest =>
    if byte.toNat < 0x80 then (Char.ofNat byte.toNat :: ·) <$> between (offset + 1) rest
    else
      match lead? byte.toNat with
      | some owed => inside offset byte 1 owed rest
      | none => .error ⟨.badStart, byte, offset, 1⟩

/-- Reads bytes inside the character that starts at `offset` with the byte `first`, of which `taken`
bytes are read. -/
def inside (offset : Nat) (first : UInt8) (taken : Nat) (owed : Owed) :
    List UInt8 → Except Flaw (List Char)
  | [] => .error ⟨.cutShort, first, offset, taken⟩
  | byte :: rest =>
    if owed.low ≤ byte.toNat ∧ byte.toNat ≤ owed.high then
      let value := owed.value * 64 + (byte.toNat - 0x80)
      if owed.count ≤ 1 then (Char.ofNat value :: ·) <$> between (offset + taken + 1) rest
      else inside offset first (taken + 1) ⟨owed.count - 1, 0x80, 0xbf, value⟩ rest
    else .error ⟨.badContinuation, first, offset, taken⟩

end

/-- **Bytes as text.** -/
def decode (bytes : List UInt8) : Except Flaw String :=
  String.ofList <$> between 0 bytes

end ScriptFrontend.Utf8
