import ScriptFrontend.Lexeme.Reading
import ScriptFrontend.Parse.Statement

/-!
# Parse/Program — whole programs

A list of tokens is read up to its first token that ends a text.  `TokenList` is such a list: the
tokens in front, and the token that ends it, which stands at the last token's place where the list
has none.

`parseProgram` reads all statements of a list.  It has room for `nestingLimit` nested parentheses,
prefix operators and blocks; `parseWithin` takes the limit as an argument.
-/

namespace ScriptFrontend

/-- Tokens up to an end, and the token that ends them. -/
structure TokenList where
  body : List Token
  stop : Token
  deriving DecidableEq

/-- The token that ends a list without one. -/
def impliedStop (tokens : List Token) : Token :=
  .finish ((tokens.getLast?.map (·.place)).getD .start)

/-- **The tokens up to the first one that ends the text.** -/
def TokenList.of (tokens : List Token) : TokenList where
  body := tokens.takeWhile (·.kind != .finish)
  stop := ((tokens.dropWhile (·.kind != .finish)).head?).getD (impliedStop tokens)

/-- The token at which a failure happened. -/
def TokenList.rejection (list : TokenList) (failure : Failure) : Rejection :=
  ⟨failure.expected, failure.remaining.headD list.stop⟩

/-- How many nested parentheses, prefix operators and blocks there is room for. -/
def nestingLimit : Nat := 1000

namespace Parser

/-- All statements of a list of tokens. -/
def statements (statement : Parser Node) (tokens : List Token) : Except Failure (List Node) :=
  go [] tokens
where
  /-- All further statements, those read so far being given in reverse. -/
  go (read : List Node) (tokens : List Token) : Except Failure (List Node) :=
    match tokens with
    | [] => .ok read.reverse
    | token :: rest =>
      match statement.run (token :: rest) with
      | .failed failure => .error failure
      | .done node behind _shorter => go (node :: read) behind
  termination_by tokens.length
  decreasing_by exact _shorter

end Parser

/-- The statements of a program with room for a given number of nested constructs. -/
def parseWithin (room : Nat) (tokens : List Token) : Except Failure (List Node) :=
  Parser.statements (Parser.statement room) (TokenList.of tokens).body

/-- A program with the given statements. -/
def programOf (body : List Node) : Node := .program body .start

/-- **The program that a list of tokens spells**, or the first token that does not fit. -/
def parseProgram (tokens : List Token) : Except Rejection Node :=
  match parseWithin nestingLimit tokens with
  | .ok body => .ok (programOf body)
  | .error failure => .error ((TokenList.of tokens).rejection failure)

/-- **The program that a text spells.** -/
def parseText (vocabulary : Vocabulary) (text : String) : Except Rejection Node :=
  parseProgram (tokens vocabulary text)

end ScriptFrontend
