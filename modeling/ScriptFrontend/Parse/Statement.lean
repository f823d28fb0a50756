import ScriptFrontend.Parse.Expression

/-!
# Parse/Statement — statements and blocks

A statement is recognised by its first token.  There are 23 forms of statement (`StatementForm`),
each with a kind of its own for that token (`StatementForm.kind`), so one token decides.  The
production of a form reads what stands behind the first token and builds the node, which stands at
that token's place.

A block is a list of statements in braces and takes one unit of room.  The productions are given the
parsers of expressions and blocks (`Inner`), and `statementRun` ties the knot along the room.
-/

namespace ScriptFrontend

/-- A form of statement. -/
inductive StatementForm where
  | init | assignment | ifElse | forLoop | whileLoop | loop | repeatLoop | tryCatch | macroRegion
  | function | returnStmt | matchWith | async | await | mutex | structDecl | classDecl | alloc
  | free | start | throw | breakStmt | continueStmt
  deriving DecidableEq

namespace StatementForm

/-- The kind of the token that a statement of the form starts with. -/
def kind : StatementForm → Kind
  | init => .keyword .init
  | assignment => .identifier
  | ifElse => .keyword .ifWord
  | forLoop => .keyword .forWord
  | whileLoop => .keyword .whileWord
  | loop => .keyword .loop
  | repeatLoop => .keyword .repeatWord
  | tryCatch => .keyword .tryWord
  | macroRegion => .operator .pipe
  | function => .keyword .func
  | returnStmt => .keyword .returnWord
  | matchWith => .keyword .matchWord
  | async => .keyword .async
  | await => .keyword .await
  | mutex => .keyword .mutex
  | structDecl => .keyword .struct
  | classDecl => .keyword .classWord
  | alloc => .keyword .alloc
  | free => .keyword .free
  | start => .keyword .start
  | throw => .keyword .throw
  | breakStmt => .keyword .breakWord
  | continueStmt => .keyword .continueWord

/-- Every form of statement. -/
def all : List StatementForm := [
  init, assignment, ifElse, forLoop, whileLoop, loop, repeatLoop, tryCatch, macroRegion, function,
  returnStmt, matchWith, async, await, mutex, structDecl, classDecl, alloc, free, start, throw,
  breakStmt, continueStmt]

/-- The form of the statements that start with a token of a kind. -/
def ofKind? (kind : Kind) : Option StatementForm := all.find? (·.kind == kind)

/-- The first token's kind gives the form back. -/
theorem ofKind?_kind (form : StatementForm) : ofKind? form.kind = some form := by
  cases form <;> decide

/-- **A kind starts the statements of a form exactly if it is the form's own.** -/
theorem ofKind?_eq_some_iff {kind : Kind} {form : StatementForm} :
    ofKind? kind = some form ↔ form.kind = kind := by
  refine ⟨fun h => by simpa using List.find?_some h, ?_⟩
  rintro rfl
  exact ofKind?_kind form

end StatementForm

/-- The parsers of what statements contain. -/
structure Inner where
  expression : Parser Node
  block : String → Parser (List Node)

namespace Parser

/-! ## Parts of statements -/

/-- `name = value;` behind the word that introduces it. -/
def initBody (inner : Inner) (head : Token) : Parser Node :=
  take .identifier .initName >>= fun name =>
  take (.operator .assign) .initAssign >>= fun _ =>
  inner.expression >>= fun value =>
  (take (.mark .semicolon) .initEnd).as (.init name.lexeme value head.place)

/-- An expression in parentheses. -/
def parenthesised (inner : Inner) (opening closing : Expectation) : Parser Node :=
  take (.mark .leftParen) opening >>= fun _ =>
  inner.expression >>= fun value =>
  (take (.mark .rightParen) closing).as value

/-- An optional expression in front of a closing mark, with the mark. -/
def optionalUntil (inner : Inner) (close : Mark) (missing : Expectation) :
    Parser (Option Node) :=
  ifNext (.mark close) ((take (.mark close) missing).as none) <|
    inner.expression >>= fun value =>
    (take (.mark close) missing).as (some value)

/-- The first part of a loop header: a declaration, or only its semicolon. -/
def forInitializer (inner : Inner) : Parser (Option Node) :=
  ifNext (.keyword .init)
    ((take (.keyword .init) .forInitializer).bind fun head => (initBody inner head).map some)
    ((take (.mark .semicolon) .forInitializer).as none)

/-- One or more names, separated by commas. -/
def parameterNames : Parser (List String) :=
  (((take .identifier .parameter).map fun name => [name.lexeme]).foldWhile
    (· == .mark .comma) (take .identifier .parameter)
    fun names _ name => name.lexeme :: names).map List.reverse

/-- Parameters and the parenthesis behind them. -/
def parametersUntil : Parser (List String) :=
  ifNext (.mark .rightParen) ((take (.mark .rightParen) .functionClose).as [])
    (parameterNames.bind fun names => (take (.mark .rightParen) .functionClose).as names)

/-- A field of a structure and its semicolon. -/
def structField : Parser String :=
  take .identifier .structField >>= fun name =>
  (take (.mark .semicolon) .structFieldEnd).as name.lexeme

/-- The entries of a match read so far, the last case first. -/
structure Entries where
  cases : List Node
  defaultBody : Option (List Node)

/-- An entry that starts with `Case`. -/
def caseEntry (inner : Inner) (entries : Entries) : Parser Entries :=
  take (.keyword .case) .matchEntry >>= fun head =>
  inner.expression >>= fun pattern =>
  take (.mark .colon) .caseColon >>= fun _ =>
  (inner.block "case").map fun body =>
    { entries with cases := .matchCase pattern body head.place :: entries.cases }

/-- An entry that starts with `Default`, unless there is one already. -/
def defaultEntry (inner : Inner) (entries : Entries) : Parser Entries :=
  if entries.defaultBody.isSome then fail .oneDefault
  else
    take (.keyword .default) .matchEntry >>= fun _ =>
    take (.mark .colon) .defaultColon >>= fun _ =>
    (inner.block "default").map fun body => { entries with defaultBody := some body }

/-- One more entry of a match. -/
def matchEntry (inner : Inner) (entries : Entries) : Parser Entries :=
  ifNext (.keyword .case) (caseEntry inner entries)
    (ifNext (.keyword .default) (defaultEntry inner entries) (fail .matchEntry))

/-! ## Productions -/

/-- A block behind a head, made into a node. -/
def blockBody (inner : Inner) (construct : String) (node : List Node → Location → Node)
    (head : Token) : Parser Node :=
  (inner.block construct).map fun body => node body head.place

/-- A semicolon behind a head. -/
def bareBody (missing : Expectation) (node : Location → Node) (head : Token) : Parser Node :=
  (take (.mark .semicolon) missing).as (node head.place)

/-- An expression and a semicolon behind a head. -/
def valueBody (inner : Inner) (missing : Expectation) (node : Node → Location → Node)
    (head : Token) : Parser Node :=
  inner.expression >>= fun value =>
  (take (.mark .semicolon) missing).as (node value head.place)

/-- **What stands behind the first token of a statement.** -/
def production (inner : Inner) (head : Token) : StatementForm → Parser Node
  | .init => initBody inner head
  | .assignment =>
    take (.operator .assign) (.assignAfter head.lexeme) >>= fun _ =>
    inner.expression >>= fun value =>
    (take (.mark .semicolon) .assignEnd).as (.assign head.lexeme value head.place)
  | .ifElse =>
    parenthesised inner .ifOpen .ifClose >>= fun condition =>
    ((inner.block "if").thenIf (.keyword .elseWord) (inner.block "else")).map fun bodies =>
      .ifElse condition bodies.1 bodies.2 head.place
  | .forLoop =>
    take (.mark .leftParen) .forOpen >>= fun _ =>
    forInitializer inner >>= fun initializer =>
    optionalUntil inner .semicolon .forCondition >>= fun condition =>
    optionalUntil inner .rightParen .forClose >>= fun increment =>
    (inner.block "for").map fun body =>
      .forLoop initializer condition increment body head.place
  | .whileLoop =>
    parenthesised inner .whileOpen .whileClose >>= fun condition =>
    (inner.block "while").map fun body => .whileLoop condition body head.place
  | .loop => blockBody inner "Loop" .loop head
  | .repeatLoop => blockBody inner "Repeat" .repeatLoop head
  | .tryCatch =>
    inner.block "try" >>= fun tryBody =>
    take (.keyword .catchWord) .catchBlock >>= fun _ =>
    (inner.block "catch").map fun catchBody => .tryCatch tryBody catchBody head.place
  | .macroRegion =>
    take .identifier .macroName >>= fun name =>
    take (.mark .colon) .macroColon >>= fun _ =>
    (skipThrough (.operator .pipe) (.macroClose name.lexeme)).as
      (.macroRegion name.lexeme head.place)
  | .function =>
    take .identifier .functionName >>= fun name =>
    take (.mark .leftParen) .functionOpen >>= fun _ =>
    parametersUntil >>= fun parameters =>
    (inner.block "function").map fun body =>
      .function name.lexeme parameters body head.place
  | .returnStmt => bareBody .returnEnd .returnStmt head
  | .matchWith =>
    parenthesised inner .matchOpen .matchClose >>= fun subject =>
    take (.mark .leftBrace) .matchBodyOpen >>= fun _ =>
    (foldUntil (.mark .rightBrace) .matchBodyClose (matchEntry inner) ⟨[], none⟩).map fun entries =>
      .matchWith subject entries.cases.reverse entries.defaultBody head.place
  | .async => blockBody inner "Async" .async head
  | .await => valueBody inner .awaitEnd .await head
  | .mutex => blockBody inner "Mutex" .mutex head
  | .structDecl =>
    take .identifier .structName >>= fun name =>
    take (.mark .leftBrace) .structOpen >>= fun _ =>
    (manyUntil (.mark .rightBrace) .structClose structField).map fun fields =>
      .structDecl name.lexeme fields head.place
  | .classDecl =>
    take .identifier .className >>= fun name =>
    (inner.block "class").map fun body => .classDecl name.lexeme body head.place
  | .alloc =>
    take .identifier .allocName >>= fun name =>
    parenthesised inner .allocOpen .allocClose >>= fun size =>
    (take (.mark .semicolon) .allocEnd).as (.alloc name.lexeme size head.place)
  | .free =>
    take .identifier .freeName >>= fun name =>
    (take (.mark .semicolon) .freeEnd).as (.free name.lexeme head.place)
  | .start =>
    inner.block "Start" >>= fun body =>
    take (.keyword .returnWord) .startReturn >>= fun _ =>
    (take (.mark .semicolon) .returnEnd).as (.start body head.place)
  | .throw => valueBody inner .throwEnd .throw head
  | .breakStmt => bareBody .breakEnd .breakStmt head
  | .continueStmt => bareBody .continueEnd .continueStmt head

/-- What is expected where a token of a kind starts no statement. -/
def noStatement (token : Token) : Expectation :=
  if token.kind.isKeyword then .statementNotWord token.lexeme else .statement

/-- A statement, given the parsers of what it contains. -/
def statementWith (inner : Inner) : Parser Node where
  run
    | [] => .failed ⟨.statement, []⟩
    | token :: rest =>
      match StatementForm.ofKind? token.kind with
      | some form =>
        ((production inner token form).run rest).widen (length_behind_le token rest)
      | none => .failed ⟨noStatement token, token :: rest⟩

/-- A block of a construct, given the parser of its statements with the closing brace. -/
def blockWith (body : Expectation → Parser (List Node)) (construct : String) :
    Parser (List Node) :=
  (take (.mark .leftBrace) (.blockOpen construct)).bind fun _ => body (.blockClose construct)

/-- A statement, with room for a number of nested parentheses, prefix operators and blocks. -/
def statementRun : (room : Nat) → (tokens : List Token) → Outcome Node tokens.length
  | 0, tokens =>
    (statementWith ⟨expression 0, blockWith fun _ => fail .shallower⟩).run tokens
  | room + 1, tokens =>
    (statementWith ⟨expression (room + 1),
      blockWith fun missing => manyUntil (.mark .rightBrace) missing ⟨statementRun room⟩⟩).run
      tokens

/-- **Statements.** -/
def statement (room : Nat) : Parser Node := ⟨statementRun room⟩

/-- The statements of a block and its closing brace: statements with one unit of room less. -/
def blockStatements : (room : Nat) → Expectation → Parser (List Node)
  | 0, _ => fail .shallower
  | room + 1, missing => manyUntil (.mark .rightBrace) missing (statement room)

/-- **Blocks.** -/
def block (room : Nat) (construct : String) : Parser (List Node) :=
  blockWith (blockStatements room) construct

/-- What statements contain, with some room. -/
def inner (room : Nat) : Inner := ⟨expression room, block room⟩

/-- A statement is made of expressions and blocks with the same room. -/
theorem statement_eq (room : Nat) : statement room = statementWith (inner room) := by
  cases room <;> rfl

end Parser

end ScriptFrontend
