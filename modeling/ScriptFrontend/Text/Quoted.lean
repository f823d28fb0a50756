import ScriptFrontend.Text.Unprintable

/-!
# Text/Quoted — a text in quotes, on one line of visible characters

`quoted` shows a text so that nothing in it is invisible: between single quotes, or between double
quotes when it holds a single quote and no double one, with every unprintable character written as
an escape.  The escapes have two, four or eight hexadecimal digits, the fewest that suffice.
-/

namespace ScriptFrontend

/-- The lower-case hexadecimal digits of a number, padded with zeros to a width. -/
def hexDigits (width n : Nat) : List Char :=
  let digits := Nat.toDigits 16 n
  List.replicate (width - digits.length) '0' ++ digits

namespace Quoted

/-- The quote around a text: double only if the text holds a single quote and no double one. -/
def mark (text : List Char) : Char :=
  if text.contains '\'' && !text.contains '"' then '"' else '\''

/-- A character between quotes of the given mark. -/
def escape (around c : Char) : List Char :=
  if c = '\\' ∨ c = around then ['\\', c]
  else if c = '\n' then ['\\', 'n']
  else if c = '\r' then ['\\', 'r']
  else if c = '\t' then ['\\', 't']
  else if isUnprintable c then
    if c.toNat < 0x100 then '\\' :: 'x' :: hexDigits 2 c.toNat
    else if c.toNat < 0x10000 then '\\' :: 'u' :: hexDigits 4 c.toNat
    else '\\' :: 'U' :: hexDigits 8 c.toNat
  else [c]

/-- The characters of a quoted text. -/
def chars (text : List Char) : List Char :=
  mark text :: text.flatMap (escape (mark text)) ++ [mark text]

end Quoted

/-- **A text in quotes**, every unprintable character escaped. -/
def quoted (text : String) : String := String.ofList (Quoted.chars text.toList)

end ScriptFrontend
