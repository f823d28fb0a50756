import ScriptFrontend.Parse.Statement

/-!
# Proofs/Grammar/Basic — the grammar, as derivations

    statement  ::= "Init" name "=" expr ";" | name "=" expr ";" | "if" "(" expr ")" block …
    block      ::= "{" { statement } "}"
    equality   ::= comparison { ("==" | "!=") comparison }   …   primary ::= number | … | "(" expr ")"

A derivation `Statement form tokens node` says that the tokens spell a statement of the form, with
exactly that tree.  `Expression rank` does the same for the ranks of expressions, `Statements`,
`Block` and `Entries` for what is repeated or enclosed, and `Program` for whole programs.  Each
constructor is one production: its token list is the right-hand side in order, and its tree takes
names and operators from the lexemes of these tokens and its place from the introducing one.

Nothing here looks at a parser; only the tables of the levels and the forms are shared.
-/

namespace ScriptFrontend.Grammar

/-! ## Expressions -/

/-- What an expression may be an operand of: a level of binary operators, a prefix operator, or
nothing but parentheses. -/
inductive Rank where
  | level (level : Level)
  | unary
  | primary
  deriving DecidableEq

/-- The rank of the operands that a level joins. -/
def operandOf : Level → Rank
  | .equality => .level .comparison
  | .comparison => .level .term
  | .term => .level .factor
  | .factor => .unary

/-- **Expressions of a rank.**  Operators of one level group to the left. -/
inductive Expression : Rank → List Token → Node → Prop where
  | operand {level : Level} {tokens : List Token} {node : Node} :
    Expression (operandOf level) tokens node → Expression (.level level) tokens node
  | binary {level : Level} {symbol : Operator} {op : Token} {front back : List Token}
    {left right : Node} :
    Expression (.level level) front left → op.kind = .operator symbol →
    symbol ∈ level.operators → Expression (operandOf level) back right →
    Expression (.level level) (front ++ op :: back) (.binary left op.lexeme right op.place)
  | primary {tokens : List Token} {node : Node} :
    Expression .primary tokens node → Expression .unary tokens node
  | unary {op : Token} {tokens : List Token} {node : Node} :
    op.kind = .operator .not ∨ op.kind = .operator .minus → Expression .unary tokens node →
    Expression .unary (op :: tokens) (.unary op.lexeme node op.place)
  | number {token : Token} :
    token.kind = .number →
    Expression .primary [token] (.literal token.lexeme "int" token.place)
  | text {token : Token} :
    token.kind = .text →
    Expression .primary [token] (.literal (unwrapped token.lexeme) "string" token.place)
  | identifier {token : Token} :
    token.kind = .identifier → Expression .primary [token] (.identifier token.lexeme token.place)
  | group {opening closing : Token} {tokens : List Token} {node : Node} :
    opening.kind = .mark .leftParen → Expression (.level .equality) tokens node →
    closing.kind = .mark .rightParen → Expression .primary (opening :: (tokens ++ [closing])) node

/-- Expressions of the loosest rank. -/
abbrev Expr : List Token → Node → Prop := Expression (.level .equality)

/-- An expression or nothing. -/
inductive OptionalExpr : List Token → Option Node → Prop where
  | absent : OptionalExpr [] none
  | present {tokens : List Token} {node : Node} :
    Expr tokens node → OptionalExpr tokens (some node)

/-! ## Parts of statements

Those that contain statements are given what a statement is. -/

/-- One or more names, separated by commas. -/
inductive Names : List Token → List String → Prop where
  | one {name : Token} : name.kind = .identifier → Names [name] [name.lexeme]
  | more {comma name : Token} {tokens : List Token} {names : List String} :
    Names tokens names → comma.kind = .mark .comma → name.kind = .identifier →
    Names (tokens ++ [comma, name]) (names ++ [name.lexeme])

/-- Names or nothing. -/
inductive Parameters : List Token → List String → Prop where
  | none : Parameters [] []
  | some {tokens : List Token} {names : List String} :
    Names tokens names → Parameters tokens names

/-- Names, each with a semicolon. -/
inductive Fields : List Token → List String → Prop where
  | nil : Fields [] []
  | cons {name semicolon : Token} {tokens : List Token} {names : List String} :
    name.kind = .identifier → semicolon.kind = .mark .semicolon → Fields tokens names →
    Fields (name :: semicolon :: tokens) (name.lexeme :: names)

section Parts

variable (S : StatementForm → List Token → Node → Prop)

/-- Statements, one after the other. -/
inductive Statements : List Token → List Node → Prop where
  | nil : Statements [] []
  | cons {form : StatementForm} {front back : List Token} {node : Node} {nodes : List Node} :
    S form front node → Statements back nodes → Statements (front ++ back) (node :: nodes)

/-- Statements in braces. -/
inductive Block : List Token → List Node → Prop where
  | braces {opening closing : Token} {tokens : List Token} {nodes : List Node} :
    opening.kind = .mark .leftBrace → Statements S tokens nodes →
    closing.kind = .mark .rightBrace → Block (opening :: (tokens ++ [closing])) nodes

/-- The entries of a match: its cases in order, and its default, of which there is **at most one**,
among them. -/
inductive Entries : List Token → List Node → Option (List Node) → Prop where
  | nil : Entries [] [] none
  | case {head colon : Token} {pattern body tokens : List Token} {node : Node}
    {nodes cases : List Node} {defaultBody : Option (List Node)} :
    head.kind = .keyword .case → Expr pattern node → colon.kind = .mark .colon →
    Block S body nodes → Entries tokens cases defaultBody →
    Entries (head :: (pattern ++ colon :: (body ++ tokens)))
      (.matchCase node nodes head.place :: cases) defaultBody
  | default {head colon : Token} {body tokens : List Token} {nodes cases : List Node} :
    head.kind = .keyword .default → colon.kind = .mark .colon → Block S body nodes →
    Entries tokens cases none → Entries (head :: colon :: (body ++ tokens)) cases (some nodes)

/-- The first part of a loop header: a declaration, or only its semicolon. -/
inductive LoopStart : List Token → Option Node → Prop where
  | declaration {tokens : List Token} {node : Node} :
    S .init tokens node → LoopStart tokens (some node)
  | empty {semicolon : Token} :
    semicolon.kind = .mark .semicolon → LoopStart [semicolon] none

end Parts

/-! ## Statements -/

/-- **Statements of a form.** -/
inductive Statement : StatementForm → List Token → Node → Prop where
  | init {head name equals semicolon : Token} {value : List Token} {node : Node} :
    head.kind = .keyword .init → name.kind = .identifier → equals.kind = .operator .assign →
    Expr value node → semicolon.kind = .mark .semicolon →
    Statement .init (head :: name :: equals :: (value ++ [semicolon]))
      (.init name.lexeme node head.place)
  | assignment {name equals semicolon : Token} {value : List Token} {node : Node} :
    name.kind = .identifier → equals.kind = .operator .assign → Expr value node →
    semicolon.kind = .mark .semicolon →
    Statement .assignment (name :: equals :: (value ++ [semicolon]))
      (.assign name.lexeme node name.place)
  | ifElse {head opening closing : Token} {condition body : List Token} {node : Node}
    {nodes : List Node} :
    head.kind = .keyword .ifWord → opening.kind = .mark .leftParen → Expr condition node →
    closing.kind = .mark .rightParen → Block Statement body nodes →
    Statement .ifElse (head :: opening :: (condition ++ closing :: body))
      (.ifElse node nodes none head.place)
  | ifElseElse {head opening closing other : Token} {condition body elseBody : List Token}
    {node : Node} {nodes elseNodes : List Node} :
    head.kind = .keyword .ifWord → opening.kind = .mark .leftParen → Expr condition node →
    closing.kind = .mark .rightParen → Block Statement body nodes →
    other.kind = .keyword .elseWord → Block Statement elseBody elseNodes →
    Statement .ifElse (head :: opening :: (condition ++ closing :: (body ++ other :: elseBody)))
      (.ifElse node nodes (some elseNodes) head.place)
  | forLoop {head opening semicolon closing : Token} {first condition increment body : List Token}
    {initializer conditionNode incrementNode : Option Node} {nodes : List Node} :
    head.kind = .keyword .forWord → opening.kind = .mark .leftParen →
    LoopStart Statement first initializer → OptionalExpr condition conditionNode →
    semicolon.kind = .mark .semicolon → OptionalExpr increment incrementNode →
    closing.kind = .mark .rightParen → Block Statement body nodes →
    Statement .forLoop
      (head :: opening ::
        (first ++ (condition ++ semicolon :: (increment ++ closing :: body))))
      (.forLoop initializer conditionNode incrementNode nodes head.place)
  | whileLoop {head opening closing : Token} {condition body : List Token} {node : Node}
    {nodes : List Node} :
    head.kind = .keyword .whileWord → opening.kind = .mark .leftParen → Expr condition node →
    closing.kind = .mark .rightParen → Block Statement body nodes →
    Statement .whileLoop (head :: opening :: (condition ++ closing :: body))
      (.whileLoop node nodes head.place)
  | loop {head : Token} {body : List Token} {nodes : List Node} :
    head.kind = .keyword .loop → Block Statement body nodes →
    Statement .loop (head :: body) (.loop nodes head.place)
  | repeatLoop {head : Token} {body : List Token} {nodes : List Node} :
    head.kind = .keyword .repeatWord → Block Statement body nodes →
    Statement .repeatLoop (head :: body) (.repeatLoop nodes head.place)
  | tryCatch {head other : Token} {body catchBody : List Token} {nodes catchNodes : List Node} :
    head.kind = .keyword .tryWord → Block Statement body nodes →
    other.kind = .keyword .catchWord → Block Statement catchBody catchNodes →
    Statement .tryCatch (head :: (body ++ other :: catchBody))
      (.tryCatch nodes catchNodes head.place)
  | macroRegion {head name colon closing : Token} {skipped : List Token} :
    head.kind = .operator .pipe → name.kind = .identifier → colon.kind = .mark .colon →
    (∀ token ∈ skipped, token.kind ≠ .operator .pipe) → closing.kind = .operator .pipe →
    Statement .macroRegion (head :: name :: colon :: (skipped ++ [closing]))
      (.macroRegion name.lexeme head.place)
  | function {head name opening closing : Token} {parameters body : List Token}
    {names : List String} {nodes : List Node} :
    head.kind = .keyword .func → name.kind = .identifier → opening.kind = .mark .leftParen →
    Parameters parameters names → closing.kind = .mark .rightParen →
    Block Statement body nodes →
    Statement .function (head :: name :: opening :: (parameters ++ closing :: body))
      (.function name.lexeme names nodes head.place)
  | returnStmt {head semicolon : Token} :
    head.kind = .keyword .returnWord → semicolon.kind = .mark .semicolon →
    Statement .returnStmt [head, semicolon] (.returnStmt head.place)
  | matchWith {head opening closing leftBrace rightBrace : Token} {subject entries : List Token}
    {node : Node} {cases : List Node} {defaultBody : Option (List Node)} :
    head.kind = .keyword .matchWord → opening.kind = .mark .leftParen → Expr subject node →
    closing.kind = .mark .rightParen → leftBrace.kind = .mark .leftBrace →
    Entries Statement entries cases defaultBody → rightBrace.kind = .mark .rightBrace →
    Statement .matchWith
      (head :: opening :: (subject ++ closing :: leftBrace :: (entries ++ [rightBrace])))
      (.matchWith node cases defaultBody head.place)
  | async {head : Token} {body : List Token} {nodes : List Node} :
    head.kind = .keyword .async → Block Statement body nodes →
    Statement .async (head :: body) (.async nodes head.place)
  | await {head semicolon : Token} {value : List Token} {node : Node} :
    head.kind = .keyword .await → Expr value node → semicolon.kind = .mark .semicolon →
    Statement .await (head :: (value ++ [semicolon])) (.await node head.place)
  | mutex {head : Token} {body : List Token} {nodes : List Node} :
    head.kind = .keyword .mutex → Block Statement body nodes →
    Statement .mutex (head :: body) (.mutex nodes head.place)
  | structDecl {head name leftBrace rightBrace : Token} {fields : List Token}
    {names : List String} :
    head.kind = .keyword .struct → name.kind = .identifier → leftBrace.kind = .mark .leftBrace →
    Fields fields names → rightBrace.kind = .mark .rightBrace →
    Statement .structDecl (head :: name :: leftBrace :: (fields ++ [rightBrace]))
      (.structDecl name.lexeme names head.place)
  | classDecl {head name : Token} {body : List Token} {nodes : List Node} :
    head.kind = .keyword .classWord → name.kind = .identifier → Block Statement body nodes →
    Statement .classDecl (head :: name :: body) (.classDecl name.lexeme nodes head.place)
  | alloc {head name opening closing semicolon : Token} {size : List Token} {node : Node} :
    head.kind = .keyword .alloc → name.kind = .identifier → opening.kind = .mark .leftParen →
    Expr size node → closing.kind = .mark .rightParen → semicolon.kind = .mark .semicolon →
    Statement .alloc (head :: name :: opening :: (size ++ [closing, semicolon]))
      (.alloc name.lexeme node head.place)
  | free {head name semicolon : Token} :
    head.kind = .keyword .free → name.kind = .identifier → semicolon.kind = .mark .semicolon →
    Statement .free [head, name, semicolon] (.free name.lexeme head.place)
  | start {head other semicolon : Token} {body : List Token} {nodes : List Node} :
    head.kind = .keyword .start → Block Statement body nodes →
    other.kind = .keyword .returnWord → semicolon.kind = .mark .semicolon →
    Statement .start (head :: (body ++ [other, semicolon])) (.start nodes head.place)
  | throw {head semicolon : Token} {value : List Token} {node : Node} :
    head.kind = .keyword .throw → Expr value node → semicolon.kind = .mark .semicolon →
    Statement .throw (head :: (value ++ [semicolon])) (.throw node head.place)
  | breakStmt {head semicolon : Token} :
    head.kind = .keyword .breakWord → semicolon.kind = .mark .semicolon →
    Statement .breakStmt [head, semicolon] (.breakStmt head.place)
  | continueStmt {head semicolon : Token} :
    head.kind = .keyword .continueWord → semicolon.kind = .mark .semicolon →
    Statement .continueStmt [head, semicolon] (.continueStmt head.place)

/-! ## Programs -/

/-- **Programs**: statements, under a node at the start of the text. -/
def Program (tokens : List Token) (tree : Node) : Prop :=
  ∃ nodes, Statements Statement tokens nodes ∧ tree = .program nodes ⟨1, 1⟩

/-- No token ends a text. -/
def EndFree (tokens : List Token) : Prop := ∀ token ∈ tokens, token.kind ≠ .finish

@[simp] theorem endFree_nil : EndFree [] := fun _ h => by simp at h

@[simp] theorem endFree_cons {token : Token} {tokens : List Token} :
    EndFree (token :: tokens) ↔ token.kind ≠ .finish ∧ EndFree tokens := List.forall_mem_cons

@[simp] theorem endFree_append {front back : List Token} :
    EndFree (front ++ back) ↔ EndFree front ∧ EndFree back := List.forall_mem_append

/-- **A sentence** is a list of tokens that spells a program.  The token that ends a text is not one
of its tokens, not even of the skipped ones of a macro. -/
def Sentence (tokens : List Token) : Prop := EndFree tokens ∧ ∃ tree, Program tokens tree

/-! ## First tokens -/

/-- A list that is not empty, with a first token whose kind passes a test. -/
def StartsWith (test : Kind → Prop) (tokens : List Token) : Prop :=
  ∃ head rest, tokens = head :: rest ∧ test head.kind

theorem StartsWith.append {test : Kind → Prop} {front : List Token} (h : StartsWith test front)
    (back : List Token) : StartsWith test (front ++ back) := by
  obtain ⟨head, rest, rfl, passes⟩ := h
  exact ⟨head, rest ++ back, rfl, passes⟩

theorem StartsWith.imp {test other : Kind → Prop} {tokens : List Token}
    (h : StartsWith test tokens) (himp : ∀ kind, test kind → other kind) :
    StartsWith other tokens := by
  obtain ⟨head, rest, rfl, passes⟩ := h
  exact ⟨head, rest, rfl, himp _ passes⟩

/-- A statement starts with a token of its form's kind. -/
theorem Statement.startsWith {form : StatementForm} {tokens : List Token} {node : Node}
    (h : Statement form tokens node) : StartsWith (· = form.kind) tokens := by
  cases h <;> exact ⟨_, _, rfl, ‹_›⟩

/-- The kinds of the tokens that may start an expression. -/
def startsExpression : Kind → Bool
  | .number | .text | .identifier | .mark .leftParen | .operator .not | .operator .minus => true
  | _ => false

/-- An expression starts with a number, a text, a name, a parenthesis or a prefix operator. -/
theorem Expression.startsWith {rank : Rank} {tokens : List Token} {node : Node}
    (h : Expression rank tokens node) : StartsWith (startsExpression · = true) tokens := by
  induction h with
  | operand _ ih | primary _ ih => exact ih
  | binary _ _ _ _ ih _ => exact ih.append _
  | unary hop _ _ => exact ⟨_, _, rfl, by rcases hop with h | h <;> simp [h, startsExpression]⟩
  | number h | text h | identifier h | group h _ _ _ =>
    exact ⟨_, _, rfl, by simp [h, startsExpression]⟩

end ScriptFrontend.Grammar
