import ScriptFrontend.Token.Basic

/-!
# Parse/Expectation — what a parser looks for and does not find

A parser stops at the first token that fits nothing it may see there.  The **expectation** that the
token does not meet is the reason for stopping; `Expectation.text` puts it into words, and a
`Rejection` adds the token.

A few expectations depend on what was read before: on the name of a construct, of a variable or of a
macro, or on the spelling of a reserved word.
-/

namespace ScriptFrontend

/-- What is expected. -/
inductive Expectation where
  | statement
  /-- A statement, but the token is a reserved word that starts none. -/
  | statementNotWord (word : String)
  | blockOpen (construct : String)
  | blockClose (construct : String)
  | initName | initAssign | initEnd
  | assignAfter (name : String)
  | assignEnd
  | ifOpen | ifClose
  | forOpen | forInitializer | forCondition | forClose
  | whileOpen | whileClose
  | catchBlock
  | matchOpen | matchClose | matchBodyOpen | caseColon | oneDefault | defaultColon | matchEntry
  | matchBodyClose
  | returnEnd | breakEnd | continueEnd | throwEnd
  | functionName | functionOpen | parameter | functionClose
  | startReturn
  | structName | structOpen | structField | structFieldEnd | structClose
  | className
  | macroName | macroColon
  | macroClose (name : String)
  | awaitEnd
  | allocName | allocOpen | allocClose | allocEnd
  | freeName | freeEnd
  | expression | groupClose
  /-- Parentheses, prefix operators or blocks are open beyond the limit. -/
  | shallower
  /-- Something in a caller's own words. -/
  | stated (text : String)
  deriving DecidableEq, Inhabited

/-- An expectation in words. -/
def Expectation.text : Expectation → String
  | statement => "Expected a statement"
  | statementNotWord word => "Expected a statement; keyword '" ++ word ++ "' cannot start one"
  | blockOpen construct => "Expected '\x7b' to open " ++ construct ++ " block"
  | blockClose construct => "Expected '\x7d' to close " ++ construct ++ " block"
  | initName => "Expected variable name after 'Init'"
  | initAssign => "Expected '=' after variable name in Init"
  | initEnd => "Expected ';' after Init"
  | assignAfter name => "Expected '=' after '" ++ name ++ "' in assignment"
  | assignEnd => "Expected ';' after assignment"
  | ifOpen => "Expected '(' after 'if'"
  | ifClose => "Expected ')' after if condition"
  | forOpen => "Expected '(' after 'for'"
  | forInitializer => "Expected 'Init' initializer or ';' in for header"
  | forCondition => "Expected ';' after for condition"
  | forClose => "Expected ')' after for header"
  | whileOpen => "Expected '(' after 'while'"
  | whileClose => "Expected ')' after while condition"
  | catchBlock => "Expected 'catch' after try block"
  | matchOpen => "Expected '(' after 'Match'"
  | matchClose => "Expected ')' after match subject"
  | matchBodyOpen => "Expected '\x7b' to open match body"
  | caseColon => "Expected ':' after case pattern"
  | oneDefault => "Expected at most one 'Default' entry"
  | defaultColon => "Expected ':' after 'Default'"
  | matchEntry => "Expected 'Case' or 'Default' in match body"
  | matchBodyClose => "Expected '\x7d' to close match body"
  | returnEnd => "Expected ';' after 'Return'"
  | breakEnd => "Expected ';' after 'Break'"
  | continueEnd => "Expected ';' after 'Continue'"
  | throwEnd => "Expected ';' after throw value"
  | functionName => "Expected function name after 'Func'"
  | functionOpen => "Expected '(' after function name"
  | parameter => "Expected parameter name"
  | functionClose => "Expected ')' after parameters"
  | startReturn => "Expected 'Return' after Start block"
  | structName => "Expected struct name after 'Struct'"
  | structOpen => "Expected '\x7b' to open struct body"
  | structField => "Expected struct field name"
  | structFieldEnd => "Expected ';' after struct field"
  | structClose => "Expected '\x7d' to close struct body"
  | className => "Expected class name after 'Class'"
  | macroName => "Expected macro name after '|'"
  | macroColon => "Expected ':' after macro name"
  | macroClose name => "Expected '|' to close macro '" ++ name ++ "'"
  | awaitEnd => "Expected ';' after awaited expression"
  | allocName => "Expected name after 'Alloc'"
  | allocOpen => "Expected '(' before allocation size"
  | allocClose => "Expected ')' after allocation size"
  | allocEnd => "Expected ';' after Alloc"
  | freeName => "Expected name after 'Free'"
  | freeEnd => "Expected ';' after Free"
  | expression => "Expected expression"
  | groupClose => "Expected ')' after expression"
  | shallower => "Expression or block nested too deeply"
  | stated text => text

/-- An expectation and the token that does not meet it. -/
structure Rejection where
  expected : Expectation
  token : Token
  deriving DecidableEq

/-- What a rejection says: the expectation, and the place, the kind and the lexeme of the token. -/
def Rejection.message (rejection : Rejection) : String :=
  rejection.expected.text ++ " at line " ++ toString rejection.token.place.line ++ ", col " ++
    toString rejection.token.place.column ++ " (got " ++ rejection.token.kind.name ++ " " ++
    quoted rejection.token.lexeme ++ ")"

end ScriptFrontend
