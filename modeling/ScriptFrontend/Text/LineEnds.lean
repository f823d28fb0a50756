/-!
# Text/LineEnds — one spelling of the end of a line

The lines of a file may end in a newline, a carriage return, or both.  `unifyLineEnds` writes each
of these ends as a single newline and leaves every other character as it is.
-/

namespace ScriptFrontend

/-- Characters with every line end written as a newline. -/
def unifyLineEndChars : List Char → List Char
  | [] => []
  | '\r' :: '\n' :: rest => '\n' :: unifyLineEndChars rest
  | '\r' :: rest => '\n' :: unifyLineEndChars rest
  | c :: rest => c :: unifyLineEndChars rest

/-- **A text with every line end written as a newline.** -/
def unifyLineEnds (text : String) : String := String.ofList (unifyLineEndChars text.toList)

end ScriptFrontend
