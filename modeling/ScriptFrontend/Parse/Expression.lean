import ScriptFrontend.Parse.Parser
import ScriptFrontend.Tree.Basic

/-!
# Parse/Expression — expressions

From the loosest to the tightest, the operators of an expression are those of equality, of
comparison, of sums and of products; each of these four levels (`Level`) groups to the left.
Tighter still are the prefix operators, which group to the right, and then numbers, texts, names and
parentheses.

A prefix operator and a parenthesis each take one unit of **room**.  Where none is left, the parser
stops with the expectation `shallower` as soon as the operator or the parenthesis has been read.
-/

namespace ScriptFrontend

/-- A level of binary operators. -/
inductive Level where
  | equality | comparison | term | factor
  deriving DecidableEq

/-- The operators of a level. -/
def Level.operators : Level → List Operator
  | equality => [.equal, .notEqual]
  | comparison => [.less, .greater, .lessEqual, .greaterEqual]
  | term => [.plus, .minus]
  | factor => [.times, .divide, .modulo]

/-- The kinds of the operators of a level. -/
def Level.kinds (level : Level) : List Kind := level.operators.map .operator

/-- Whether a kind is that of an operator of the level. -/
def Level.has (level : Level) : Kind → Bool
  | .operator op => level.operators.contains op
  | _ => false

/-- The operators of a level are known by their kinds. -/
theorem Level.contains_kinds (level : Level) : level.kinds.contains = level.has := by
  funext kind
  cases level <;> cases kind with
  | operator op => cases op <;> rfl
  | _ => rfl

/-- Whether a kind is that of a prefix operator. -/
def isPrefixOperator : Kind → Bool
  | .operator .not | .operator .minus => true
  | _ => false

/-- A text without its first and its last character. -/
def unwrapped (lexeme : String) : String := String.ofList lexeme.toList.tail.dropLast

namespace Parser

/-- Operands joined by the tokens that pass a test, grouped to the left.  A node stands at the place
of its operator. -/
def joinedWhile (test : Kind → Bool) (operand : Parser Node) : Parser Node :=
  operand.foldWhile test operand fun left token right =>
    .binary left token.lexeme right token.place

/-- Operands joined by the operators of a level. -/
def chain (level : Level) (operand : Parser Node) : Parser Node := joinedWhile level.has operand

/-- Products of operands. -/
def factorOver (unary : Parser Node) : Parser Node := chain .factor unary

/-- Sums of products. -/
def termOver (unary : Parser Node) : Parser Node := chain .term (factorOver unary)

/-- Comparisons of sums. -/
def comparisonOver (unary : Parser Node) : Parser Node := chain .comparison (termOver unary)

/-- Equalities of comparisons. -/
def equalityOver (unary : Parser Node) : Parser Node := chain .equality (comparisonOver unary)

/-- Expressions, given their operands. -/
def expressionOver (unary : Parser Node) : Parser Node := equalityOver unary

/-- A number, a text, a name, or an expression in parentheses, given the parser for the latter. -/
def primaryWith (inner : Parser Node) : Parser Node where
  run
    | [] => .failed ⟨.expression, []⟩
    | token :: rest =>
      match token.kind with
      | .number =>
        .done (.literal token.lexeme "int" token.place) rest (length_behind_lt token rest)
      | .text =>
        .done (.literal (unwrapped token.lexeme) "string" token.place) rest
          (length_behind_lt token rest)
      | .identifier =>
        .done (.identifier token.lexeme token.place) rest (length_behind_lt token rest)
      | .mark .leftParen =>
        ((inner.bind fun expression =>
          (take (.mark .rightParen) .groupClose).as expression).run rest).widen
            (length_behind_le token rest)
      | _ => .failed ⟨.expression, token :: rest⟩

/-- An operand: prefix operators in front of a primary expression.  `inner` reads what stands behind
a prefix operator, and `group` what stands in parentheses. -/
def unaryWith (inner group : Parser Node) : Parser Node where
  run
    | [] => (primaryWith group).run []
    | token :: rest =>
      if isPrefixOperator token.kind then
        ((inner.run rest).map fun operand =>
          .unary token.lexeme operand token.place).widen (length_behind_le token rest)
      else (primaryWith group).run (token :: rest)

/-- An operand, with room for a number of nested parentheses and prefix operators. -/
def unaryRun : (room : Nat) → (tokens : List Token) → Outcome Node tokens.length
  | 0, tokens => (unaryWith (fail .shallower) (fail .shallower)).run tokens
  | room + 1, tokens =>
    (unaryWith ⟨unaryRun room⟩ (expressionOver ⟨unaryRun room⟩)).run tokens

/-- **Operands.** -/
def unary (room : Nat) : Parser Node := ⟨unaryRun room⟩

/-- What may stand inside parentheses: an expression with one unit of room less. -/
def group : (room : Nat) → Parser Node
  | 0 => fail .shallower
  | room + 1 => expressionOver (unary room)

/-- Primary expressions. -/
def primary (room : Nat) : Parser Node := primaryWith (group room)

/-- Products. -/
def factor (room : Nat) : Parser Node := factorOver (unary room)

/-- Sums. -/
def term (room : Nat) : Parser Node := termOver (unary room)

/-- Comparisons. -/
def comparison (room : Nat) : Parser Node := comparisonOver (unary room)

/-- Equalities. -/
def equality (room : Nat) : Parser Node := equalityOver (unary room)

/-- **Expressions.** -/
def expression (room : Nat) : Parser Node := expressionOver (unary room)

/-- An operand without room has none inside. -/
theorem unary_zero : unary 0 = unaryWith (fail .shallower) (group 0) := rfl

/-- An operand passes one unit of room less on. -/
theorem unary_succ (room : Nat) :
    unary (room + 1) = unaryWith (unary room) (group (room + 1)) := rfl

end Parser

end ScriptFrontend
