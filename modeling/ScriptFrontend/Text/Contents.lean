import ScriptFrontend.Text.LineEnds
import ScriptFrontend.Text.Utf8

/-!
# Text/Contents — the text in the bytes of a file
-/

namespace ScriptFrontend

/-- **The text of a file**: its bytes as UTF-8, with every line end written as a newline. -/
def contentsOf (bytes : List UInt8) : Except Utf8.Flaw String :=
  (Utf8.decode bytes).map unifyLineEnds

end ScriptFrontend
