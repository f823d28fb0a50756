import ScriptFrontend.Parse.Expectation
import ScriptFrontend.Tree.Shown

/-!
# Parse/Shown — the result of parsing on one line
-/

namespace ScriptFrontend

/-- **A result as it is shown**: the program, if that can be shown, or the message of the rejection
in quotes. -/
def shownResult : Except Rejection Node → Option String
  | .ok program => program.shown.map fun text => "ParseSuccess(" ++ text ++ ")"
  | .error rejection => some ("ParseFailure(" ++ quoted rejection.message ++ ")")

end ScriptFrontend
