import ScriptFrontend.Tree.Basic

/-!
# Tree/Name — the two names of a form

A form has a word, which is what a record of the tree says (`Form.word`), and a title, which is what
a display of the tree says (`Form.title`).  Different forms have different words and different
titles.
-/

namespace ScriptFrontend.Form

/-- The word of a form. -/
def word : Form → String
  | bare => "node"
  | literal => "literal"
  | identifier => "identifier"
  | binary => "binary"
  | unary => "unary"
  | program => "program"
  | init => "init"
  | assign => "assign"
  | ifElse => "if"
  | forLoop => "for"
  | whileLoop => "while"
  | loop => "loop"
  | repeatLoop => "repeat"
  | tryCatch => "try"
  | returnStmt => "return"
  | breakStmt => "break"
  | continueStmt => "continue"
  | function => "func"
  | macroRegion => "macro"
  | matchCase => "case"
  | matchWith => "match"
  | start => "start"
  | throw => "throw"
  | async => "async"
  | await => "await"
  | mutex => "mutex"
  | structDecl => "struct"
  | classDecl => "class"
  | alloc => "alloc"
  | free => "free"

/-- The title of a form. -/
def title : Form → String
  | bare => "ASTNode"
  | literal => "Literal"
  | identifier => "Identifier"
  | binary => "BinaryExpr"
  | unary => "UnaryExpr"
  | program => "Program"
  | init => "Init"
  | assign => "Assign"
  | ifElse => "If"
  | forLoop => "For"
  | whileLoop => "While"
  | loop => "Loop"
  | repeatLoop => "Repeat"
  | tryCatch => "TryCatch"
  | returnStmt => "Return"
  | breakStmt => "Break"
  | continueStmt => "Continue"
  | function => "FuncDecl"
  | macroRegion => "Macro"
  | matchCase => "MatchCase"
  | matchWith => "Match"
  | start => "Start"
  | throw => "Throw"
  | async => "Async"
  | await => "Await"
  | mutex => "Mutex"
  | structDecl => "StructDecl"
  | classDecl => "ClassDecl"
  | alloc => "Alloc"
  | free => "Free"

/-- Every form, in order. -/
def all : List Form := [
  bare, literal, identifier, binary, unary, program, init, assign, ifElse, forLoop, whileLoop, loop,
  repeatLoop, tryCatch, returnStmt, breakStmt, continueStmt, function, macroRegion, matchCase,
  matchWith, start, throw, async, await, mutex, structDecl, classDecl, alloc, free]

/-- The form of a given word. -/
def ofWord? (word : String) : Option Form := all.find? (·.word == word)

theorem ofWord?_word (form : Form) : ofWord? form.word = some form := by
  cases form <;> decide

/-- **Different forms have different words.** -/
theorem word_injective {a b : Form} (h : a.word = b.word) : a = b :=
  Option.some.inj (by rw [← ofWord?_word a, h, ofWord?_word b])

end ScriptFrontend.Form
