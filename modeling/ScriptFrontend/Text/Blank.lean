/-!
# Text/Blank — trimming blanks of every script

`isBlank` is Unicode white space together with the four separators U+001C to U+001F; the zero-width
characters are not blank.  `trimBlanks` takes them off both ends of a text.
-/

namespace ScriptFrontend

/-- The blank characters above ASCII. -/
def wideBlanks : List Nat := [
  0x85, 0xa0, 0x1680, 0x2000, 0x2001, 0x2002, 0x2003, 0x2004, 0x2005, 0x2006, 0x2007, 0x2008,
  0x2009, 0x200a, 0x2028, 0x2029, 0x202f, 0x205f, 0x3000]

/-- Whether a character is blank. -/
def isBlank (c : Char) : Bool :=
  (0x09 ≤ c.toNat && c.toNat ≤ 0x0d) || (0x1c ≤ c.toNat && c.toNat ≤ 0x20) ||
    wideBlanks.contains c.toNat

/-- A text without the blanks at its start and its end. -/
def trimBlanks (text : String) : String :=
  String.ofList (((text.toList.dropWhile isBlank).reverse.dropWhile isBlank).reverse)

end ScriptFrontend
