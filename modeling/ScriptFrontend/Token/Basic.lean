import ScriptFrontend.Kind.Name
import ScriptFrontend.Location
import ScriptFrontend.Text.Quoted

/-!
# Token/Basic — a token of the language

A **token** is a kind, the text it was read from (its *lexeme*), and the place where that text
starts.  Tokens are equal when all of these are.
-/

namespace ScriptFrontend

/-- A token. -/
structure Token where
  kind : Kind
  lexeme : String
  place : Location := Location.start
  deriving DecidableEq, Inhabited

namespace Token

/-- The token that stands for the end of a text. -/
def finish (place : Location) : Token := ⟨.finish, "", place⟩

/-- What an attempt to change a part of a token is answered: a token never changes. -/
def changeRefused (part : String) : String := "Token is immutable; cannot set " ++ quoted part

/-- A token as it is shown: its kind and its quoted lexeme. -/
def shown (token : Token) : String :=
  "Token(" ++ token.kind.name ++ ", " ++ quoted token.lexeme ++ ")"

end Token

end ScriptFrontend
