import ScriptFrontend.Json.Value
import ScriptFrontend.Token.Basic

/-!
# Token/Record — a token as a JSON value
-/

namespace ScriptFrontend.Token

/-- **The record of a token**: its kind, its lexeme, its line and its column. -/
def record (token : Token) : Json :=
  .object [("kind", .string token.kind.name), ("lexeme", .string token.lexeme),
    ("line", .int token.place.line), ("column", .int token.place.column)]

end ScriptFrontend.Token
