import ScriptFrontend.Parse.Program
import ScriptFrontend.Proofs.Descent.Code

/-!
# Proofs/Descent/Routine — the routines of the parser

    program ─▸ statement ─▸ form ─▸ block ─▸ blockRest ─▸ statement …
                             └────▸ expression ─▸ levels ─▸ unary ─▸ primary ─▸ expression …

The parsers of statements, blocks and expressions as routines that call one another without a bound
(`Routine.text`).  Each form of statement is a routine that takes its first token and goes on as its
production does (`formText`), and each loop is one that calls itself: the statements of a program
and of a block, the entries of a match, parameters, fields, the tokens of a macro region, and the
operands of a level.

Three calls open a construct: that of an expression behind a parenthesis, that of an operand behind
a prefix operator, and that of the statements behind the brace of a block.
-/

namespace ScriptFrontend

open Descent

/-- **The routines of the parser**, each with what it answers. -/
inductive Routine : Type → Type where
  /-- All further statements, those read so far being given in reverse. -/
  | program (read : List Node) : Routine (List Node)
  | statement : Routine Node
  | form (form : StatementForm) : Routine Node
  | block (construct : String) : Routine (List Node)
  /-- The further statements of a block and its brace. -/
  | blockRest (construct : String) (read : List Node) : Routine (List Node)
  /-- The further entries of a match and its brace. -/
  | entries (read : Parser.Entries) : Routine Parser.Entries
  /-- Further parameters. -/
  | names (read : List String) : Routine (List String)
  /-- The further fields of a structure and its brace. -/
  | fields (read : List String) : Routine (List String)
  /-- The further tokens of a macro region and its bar. -/
  | skipped (missing : Expectation) : Routine Unit
  | expression : Routine Node
  | level (level : Level) : Routine Node
  /-- The further operands of a level. -/
  | joined (level : Level) (left : Node) : Routine Node
  | unary : Routine Node
  | primary : Routine Node

namespace Routine

open Code

/-! ## Expressions -/

/-- The routine of the operands that a level joins. -/
def operand : Level → Routine Node
  | .equality => .level .comparison
  | .comparison => .level .term
  | .term => .level .factor
  | .factor => .unary

/-- A prefix operator and its operand. -/
def signText (op : Operator) : Code Routine Node := do
  let token ← take (.operator op) .expression
  let operand ← invoke 1 unary
  return .unary token.lexeme operand token.place

/-- An operand. -/
def unaryText : Code Routine Node :=
  ifNext (.operator .not) (signText .not) (ifNext (.operator .minus) (signText .minus)
    (invoke 0 primary))

/-- An expression in parentheses. -/
def groupText : Code Routine Node := do
  let _ ← take (.mark .leftParen) .expression
  let value ← invoke 1 expression
  (take (.mark .rightParen) .groupClose).map fun _ => value

/-- A number, a text, a name, or an expression in parentheses. -/
def primaryText : Code Routine Node :=
  ifNext .number
    ((take .number .expression).map fun token => .literal token.lexeme "int" token.place) (
  ifNext .text
    ((take .text .expression).map fun token =>
      .literal (unwrapped token.lexeme) "string" token.place) (
  ifNext .identifier
    ((take .identifier .expression).map fun token => .identifier token.lexeme token.place) (
  ifNext (.mark .leftParen) groupText (.fail .expression))))

/-! ## Parts of statements -/

/-- `name = value;` behind the word that introduces it. -/
def initText (head : Token) : Code Routine Node := do
  let name ← take .identifier .initName
  let _ ← take (.operator .assign) .initAssign
  let value ← invoke 0 expression
  (take (.mark .semicolon) .initEnd).map fun _ => .init name.lexeme value head.place

/-- An expression between the parentheses that belong to a statement. -/
def parenthesisedText (opening closing : Expectation) : Code Routine Node := do
  let _ ← take (.mark .leftParen) opening
  let value ← invoke 0 expression
  (take (.mark .rightParen) closing).map fun _ => value

/-- An optional expression in front of a closing mark, with the mark. -/
def optionalText (close : Mark) (missing : Expectation) : Code Routine (Option Node) :=
  ifNext (.mark close) ((take (.mark close) missing).map fun _ => none) do
    let value ← invoke 0 expression
    (take (.mark close) missing).map fun _ => some value

/-- The first part of a loop header: a declaration, or only its semicolon. -/
def loopStartText : Code Routine (Option Node) :=
  ifNext (.keyword .init) ((invoke 0 (form .init)).map some)
    ((take (.mark .semicolon) .forInitializer).map fun _ => none)

/-- One or more names, separated by commas. -/
def namesText : Code Routine (List String) :=
  ((take .identifier .parameter).map (fun name => [name.lexeme]) >>= fun first =>
    invoke 0 (names first)).map List.reverse

/-- Parameters and the parenthesis behind them. -/
def parametersText : Code Routine (List String) :=
  ifNext (.mark .rightParen) ((take (.mark .rightParen) .functionClose).map fun _ => []) do
    let names ← namesText
    (take (.mark .rightParen) .functionClose).map fun _ => names

/-- A field of a structure and its semicolon. -/
def fieldText : Code Routine String := do
  let name ← take .identifier .structField
  (take (.mark .semicolon) .structFieldEnd).map fun _ => name.lexeme

/-- An entry that starts with `Case`. -/
def caseText (read : Parser.Entries) : Code Routine Parser.Entries := do
  let head ← take (.keyword .case) .matchEntry
  let pattern ← invoke 0 expression
  let _ ← take (.mark .colon) .caseColon
  (invoke 0 (block "case")).map fun body =>
    { read with cases := .matchCase pattern body head.place :: read.cases }

/-- An entry that starts with `Default`, unless there is one already. -/
def defaultText (read : Parser.Entries) : Code Routine Parser.Entries :=
  if read.defaultBody.isSome then .fail .oneDefault
  else do
    let _ ← take (.keyword .default) .matchEntry
    let _ ← take (.mark .colon) .defaultColon
    (invoke 0 (block "default")).map fun body => { read with defaultBody := some body }

/-- One more entry of a match. -/
def entryText (read : Parser.Entries) : Code Routine Parser.Entries :=
  ifNext (.keyword .case) (caseText read)
    (ifNext (.keyword .default) (defaultText read) (.fail .matchEntry))

/-- A block behind a head, made into a node. -/
def blockText (construct : String) (node : List Node → Location → Node) (head : Token) :
    Code Routine Node :=
  (invoke 0 (block construct)).map fun body => node body head.place

/-- A semicolon behind a head. -/
def bareText (missing : Expectation) (node : Location → Node) (head : Token) :
    Code Routine Node :=
  (take (.mark .semicolon) missing).map fun _ => node head.place

/-- An expression and a semicolon behind a head. -/
def valueText (missing : Expectation) (node : Node → Location → Node) (head : Token) :
    Code Routine Node := do
  let value ← invoke 0 expression
  (take (.mark .semicolon) missing).map fun _ => node value head.place

/-! ## Statements -/

/-- **What stands behind the first token of a statement.** -/
def formText (head : Token) : StatementForm → Code Routine Node
  | .init => initText head
  | .assignment => do
    let _ ← take (.operator .assign) (.assignAfter head.lexeme)
    let value ← invoke 0 expression
    (take (.mark .semicolon) .assignEnd).map fun _ => .assign head.lexeme value head.place
  | .ifElse => do
    let condition ← parenthesisedText .ifOpen .ifClose
    (thenIf (invoke 0 (block "if")) (.keyword .elseWord) (invoke 0 (block "else"))).map fun bodies =>
      .ifElse condition bodies.1 bodies.2 head.place
  | .forLoop => do
    let _ ← take (.mark .leftParen) .forOpen
    let initializer ← loopStartText
    let condition ← optionalText .semicolon .forCondition
    let increment ← optionalText .rightParen .forClose
    (invoke 0 (block "for")).map fun body =>
      .forLoop initializer condition increment body head.place
  | .whileLoop => do
    let condition ← parenthesisedText .whileOpen .whileClose
    (invoke 0 (block "while")).map fun body => .whileLoop condition body head.place
  | .loop => blockText "Loop" .loop head
  | .repeatLoop => blockText "Repeat" .repeatLoop head
  | .tryCatch => do
    let tryBody ← invoke 0 (block "try")
    let _ ← take (.keyword .catchWord) .catchBlock
    (invoke 0 (block "catch")).map fun catchBody => .tryCatch tryBody catchBody head.place
  | .macroRegion => do
    let name ← take .identifier .macroName
    let _ ← take (.mark .colon) .macroColon
    (invoke 0 (skipped (.macroClose name.lexeme))).map fun _ =>
      .macroRegion name.lexeme head.place
  | .function => do
    let name ← take .identifier .functionName
    let _ ← take (.mark .leftParen) .functionOpen
    let parameters ← parametersText
    (invoke 0 (block "function")).map fun body => .function name.lexeme parameters body head.place
  | .returnStmt => bareText .returnEnd .returnStmt head
  | .matchWith => do
    let subject ← parenthesisedText .matchOpen .matchClose
    let _ ← take (.mark .leftBrace) .matchBodyOpen
    (invoke 0 (entries ⟨[], none⟩)).map fun entries =>
      .matchWith subject entries.cases.reverse entries.defaultBody head.place
  | .async => blockText "Async" .async head
  | .await => valueText .awaitEnd .await head
  | .mutex => blockText "Mutex" .mutex head
  | .structDecl => do
    let name ← take .identifier .structName
    let _ ← take (.mark .leftBrace) .structOpen
    (invoke 0 (fields [])).map fun fields => .structDecl name.lexeme fields head.place
  | .classDecl => do
    let name ← take .identifier .className
    (invoke 0 (block "class")).map fun body => .classDecl name.lexeme body head.place
  | .alloc => do
    let name ← take .identifier .allocName
    let size ← parenthesisedText .allocOpen .allocClose
    (take (.mark .semicolon) .allocEnd).map fun _ => .alloc name.lexeme size head.place
  | .free => do
    let name ← take .identifier .freeName
    (take (.mark .semicolon) .freeEnd).map fun _ => .free name.lexeme head.place
  | .start => do
    let body ← invoke 0 (block "Start")
    let _ ← take (.keyword .returnWord) .startReturn
    (take (.mark .semicolon) .returnEnd).map fun _ => .start body head.place
  | .throw => valueText .throwEnd .throw head
  | .breakStmt => bareText .breakEnd .breakStmt head
  | .continueStmt => bareText .continueEnd .continueStmt head

/-- A statement, told by its first token. -/
def statementText : Code Routine Node :=
  .look fun
    | none => .fail .statement
    | some token =>
      match StatementForm.ofKind? token.kind with
      | some f => invoke 0 (form f)
      | none => .fail (Parser.noStatement token)

/-- A round of the loop over the statements of a program. -/
def programText (read : List Node) : Code Routine (List Node) :=
  .look fun
    | none => .pure read.reverse
    | some _ => do
      let node ← invoke 0 statement
      invoke 0 (program (node :: read))

/-- A round of the loop over the tokens of a macro region. -/
def skippedText (missing : Expectation) : Code Routine Unit :=
  .look fun
    | none => .fail missing
    | some token =>
      if token.kind = .operator .pipe then (take (.operator .pipe) missing).map fun _ => ()
      else take token.kind missing >>= fun _ => invoke 0 (skipped missing)

/-- **The text of each routine.** -/
def text : {α : Type} → Routine α → Code Routine α
  | _, program read => programText read
  | _, statement => statementText
  | _, form f => .advance >>= fun head => formText head f
  | _, block construct =>
    take (.mark .leftBrace) (.blockOpen construct) >>= fun _ => invoke 1 (blockRest construct [])
  | _, blockRest construct read =>
    untilClose (.mark .rightBrace) (.blockClose construct) read.reverse
      ((invoke 0 statement).map (· :: read)) (blockRest construct)
  | _, entries read =>
    untilClose (.mark .rightBrace) .matchBodyClose read (entryText read) entries
  | _, names read =>
    whileNext (· == .mark .comma) read (take .identifier .parameter)
      (fun _ name => name.lexeme :: read) names
  | _, fields read =>
    untilClose (.mark .rightBrace) .structClose read.reverse (fieldText.map (· :: read)) fields
  | _, skipped missing => skippedText missing
  | _, expression => invoke 0 (level .equality)
  | _, level l => invoke 0 (operand l) >>= fun left => invoke 0 (joined l left)
  | _, joined l left =>
    whileNext l.has left (invoke 0 (operand l))
      (fun token right => .binary left token.lexeme right token.place) (joined l)
  | _, unary => unaryText
  | _, primary => primaryText

end Routine

/-- **The parser without a bound**, in front of a token that ends the text. -/
def descent (stop : Token) : Machine Routine := ⟨Routine.text, stop⟩

end ScriptFrontend
