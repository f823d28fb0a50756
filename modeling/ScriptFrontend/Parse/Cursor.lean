import ScriptFrontend.Parse.Program

/-!
# Parse/Cursor — parsing a list of tokens one request at a time

A `Cursor` stands in front of a token of a list, and never behind the token that ends the list.
Each `Request` asks it for one thing: to show or to take the next token, or to read a block, the
rest of a program, or a `Piece`, which is a single node.  `Cursor.answer` gives the `Reply` and the
cursor afterwards.

A request that is refused leaves the cursor in front of the offending token, so that the next
request goes on from there; only behind a second `Default` it stands behind that word.  The request
for a form of statement takes its first token as it is, of whatever kind.

The four levels of binary operators are one piece (`Piece.binary`) with their own operators and
operands.  It may be asked for with others: with operators of any kinds, and with any piece as an
operand.  The token that ends the list may be among the operators, too.  It is never passed, so the
operand behind it is looked for in front of it, where there is none.
-/

namespace ScriptFrontend

/-- A list of tokens and a position in it. -/
structure Cursor where
  tokens : List Token
  position : Nat := 0
  deriving DecidableEq

namespace Cursor

/-- What is read as one node. -/
inductive Piece where
  | statement
  /-- What stands behind the next token in a form of statement. -/
  | form (form : StatementForm)
  /-- Operands, joined by tokens of some kinds. -/
  | binary (operators : List Kind) (operand : Piece)
  | unary
  | primary
  deriving DecidableEq

/-- What a cursor can be asked for. -/
inductive Request where
  | current
  | advance
  | atEnd
  /-- Whether the next token is of one of some kinds. -/
  | check (kinds : List Kind)
  /-- The next token, taken if it is of one of some kinds. -/
  | accept (kinds : List Kind)
  /-- The next token, which has to be of a kind. -/
  | consume (kind : Kind) (expected : String)
  /-- All statements that are left. -/
  | program
  | block (construct : String)
  | piece (piece : Piece)
  deriving DecidableEq

/-- What a cursor replies. -/
inductive Reply where
  | token (token : Token)
  | nothing
  | truth (value : Bool)
  | node (node : Node)
  | nodes (nodes : List Node)
  | refused (rejection : Rejection)

/-! ## Pieces -/

namespace Piece

/-- Products. -/
def factor : Piece := binary Level.factor.kinds unary

/-- Sums. -/
def term : Piece := binary Level.term.kinds factor

/-- Comparisons. -/
def comparison : Piece := binary Level.comparison.kinds term

/-- Equalities. -/
def equality : Piece := binary Level.equality.kinds comparison

/-- Expressions. -/
def expression : Piece := equality

end Piece

end Cursor

namespace Parser

/-- What stands behind the next token in a form of statement, whatever that token is. -/
def behindNext (stop : Token) (form : StatementForm) : Parser Node where
  run tokens :=
    ((production (inner nestingLimit) (tokens.headD stop) form).run tokens.tail).widen
      (List.tail_suffix tokens).length_le

/-- Operands joined by tokens of some kinds.  Behind the last one, the end of the list counts as an
operator if it is of one of the kinds. -/
def joinedBy (operators : List Kind) (operand : Parser Node) : Parser Node where
  run tokens :=
    match (joinedWhile operators.contains operand).run tokens with
    | .done value [] fewer =>
      if operators.contains .finish then (operand.run []).widen (Nat.zero_le _)
      else .done value [] fewer
    | outcome => outcome

end Parser

namespace Cursor

/-- The parser of a piece, given the token that ends the list. -/
def Piece.parser (stop : Token) : Piece → Parser Node
  | statement => .statement nestingLimit
  | form f => .behindNext stop f
  | binary operators operand => .joinedBy operators (operand.parser stop)
  | unary => .unary nestingLimit
  | primary => .primary nestingLimit

/-! ## Looking and taking -/

/-- The tokens of the list up to its end, and the token that ends it. -/
def list (c : Cursor) : TokenList := .of c.tokens

/-- The tokens that are left in front of the end. -/
def ahead (c : Cursor) : List Token := c.list.body.drop c.position

/-- The next token: the one that ends the list if no other is left. -/
def current (c : Cursor) : Token := c.ahead.headD c.list.stop

/-- Whether no token is left. -/
def atEnd (c : Cursor) : Bool := c.ahead.isEmpty

/-- The cursor from which the given tokens are left. -/
def leaving (c : Cursor) (rest : List Token) : Cursor :=
  ⟨c.tokens, c.list.body.length - rest.length⟩

/-- The cursor behind the next token, but not behind the end. -/
def advanced (c : Cursor) : Cursor := if c.atEnd then c else ⟨c.tokens, c.position + 1⟩

/-- Whether the next token is of one of some kinds. -/
def check (c : Cursor) (kinds : List Kind) : Bool := kinds.contains c.current.kind

/-! ## Reading -/

/-- The tokens in front of which a cursor stands after a failure. -/
def leftBy (failure : Failure) : List Token :=
  if failure.expected = .oneDefault then failure.remaining.tail else failure.remaining

/-- The reply to a failure, and the cursor that it leaves. -/
def refuse (c : Cursor) (failure : Failure) : Reply × Cursor :=
  (.refused (c.list.rejection failure), c.leaving (leftBy failure))

/-- Reads something off the tokens that are left. -/
def readAhead {α : Type} (c : Cursor) (p : Parser α) (reply : α → Reply) : Reply × Cursor :=
  match p.run c.ahead with
  | .done value rest _ => (reply value, c.leaving rest)
  | .failed failure => c.refuse failure

/-- **The reply to a request**, and the cursor afterwards. -/
def answer (c : Cursor) : Request → Reply × Cursor
  | .current => (.token c.current, c)
  | .advance => (.token c.current, c.advanced)
  | .atEnd => (.truth c.atEnd, c)
  | .check kinds => (.truth (c.check kinds), c)
  | .accept kinds => if c.check kinds then (.token c.current, c.advanced) else (.nothing, c)
  | .consume kind expected =>
    if c.current.kind = kind then (.token c.current, c.advanced)
    else (.refused ⟨.stated expected, c.current⟩, c)
  | .program =>
    match Parser.statements (.statement nestingLimit) c.ahead with
    | .ok body => (.node (programOf body), c.leaving [])
    | .error failure => c.refuse failure
  | .block construct => c.readAhead (.block nestingLimit construct) .nodes
  | .piece piece => c.readAhead (piece.parser c.list.stop) .node

end Cursor

end ScriptFrontend
