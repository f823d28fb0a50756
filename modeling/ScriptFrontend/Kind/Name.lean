import ScriptFrontend.Kind.Basic

/-!
# Kind/Name — the names of the kinds, and their numbers

`Kind.name` is the name a kind is reported by and asked for by.  `Kind.all` lists every kind once,
in the order in which they are numbered from 1; `Kind.ofName?` reads a name back.
-/

namespace ScriptFrontend

/-- The name of a reserved word's kind. -/
def Keyword.name : Keyword → String
  | .start => "START"
  | .returnWord => "RETURN"
  | .ifWord => "IF"
  | .elseWord => "ELSE"
  | .forWord => "FOR"
  | .whileWord => "WHILE"
  | .loop => "LOOP"
  | .repeatWord => "REPEAT"
  | .tryWord => "TRY"
  | .catchWord => "CATCH"
  | .throw => "THROW"
  | .defer => "DEFER"
  | .breakWord => "BREAK"
  | .continueWord => "CONTINUE"
  | .halt => "HALT"
  | .pause => "PAUSE"
  | .async => "ASYNC"
  | .await => "AWAIT"
  | .mutex => "MUTEX"
  | .coroutine => "COROUTINE"
  | .schedule => "SCHEDULE"
  | .event => "EVENT"
  | .trigger => "TRIGGER"
  | .watch => "WATCH"
  | .listen => "LISTEN"
  | .init => "INIT"
  | .letWord => "LET"
  | .val => "VAL"
  | .var => "VAR"
  | .const => "CONST"
  | .static => "STATIC"
  | .dynamic => "DYNAMIC"
  | .int => "INT"
  | .float => "FLOAT"
  | .bool => "BOOL"
  | .string => "STRING"
  | .char => "CHAR"
  | .nullval => "NULLVAL"
  | .trueval => "TRUEVAL"
  | .falseval => "FALSEVAL"
  | .alloc => "ALLOC"
  | .free => "FREE"
  | .pointer => "POINTER"
  | .memory => "MEMORY"
  | .reference => "REFERENCE"
  | .scope => "SCOPE"
  | .boundary => "BOUNDARY"
  | .sweep => "SWEEP"
  | .garbage => "GARBAGE"
  | .and => "AND"
  | .or => "OR"
  | .xor => "XOR"
  | .nand => "NAND"
  | .nor => "NOR"
  | .implies => "IMPLIES"
  | .conditional => "CONDITIONAL"
  | .macroBegin => "MACRO_BEGIN"
  | .macroEnd => "MACRO_END"
  | .texturizer => "TEXTURIZER"
  | .inlineMacro => "INLINE_MACRO"
  | .struct => "STRUCT"
  | .classWord => "CLASS"
  | .enum => "ENUM"
  | .func => "FUNC"
  | .call => "CALL"
  | .tuple => "TUPLE"
  | .array => "ARRAY"
  | .list => "LIST"
  | .matrix => "MATRIX"
  | .vector => "VECTOR"
  | .node => "NODE"
  | .child => "CHILD"
  | .branch => "BRANCH"
  | .nest => "NEST"
  | .category => "CATEGORY"
  | .label => "LABEL"
  | .descriptor => "DESCRIPTOR"
  | .typedef => "TYPEDEF"
  | .file => "FILE"
  | .folder => "FOLDER"
  | .socket => "SOCKET"
  | .api => "API"
  | .link => "LINK"
  | .bind => "BIND"
  | .wrap => "WRAP"
  | .interop => "INTEROP"
  | .input => "INPUT"
  | .output => "OUTPUT"
  | .io => "IO"
  | .openWord => "OPEN"
  | .close => "CLOSE"
  | .read => "READ"
  | .write => "WRITE"
  | .compile => "COMPILE"
  | .render => "RENDER"
  | .replace => "REPLACE"
  | .accept => "ACCEPT"
  | .encrypt => "ENCRYPT"
  | .decrypt => "DECRYPT"
  | .obfuscate => "OBFUSCATE"
  | .cipher => "CIPHER"
  | .proxy => "PROXY"
  | .firewall => "FIREWALL"
  | .secure => "SECURE"
  | .unsecure => "UNSECURE"
  | .privateWord => "PRIVATE"
  | .publicWord => "PUBLIC"
  | .deny => "DENY"
  | .allow => "ALLOW"
  | .bypass => "BYPASS"
  | .validate => "VALIDATE"
  | .configure => "CONFIGURE"
  | .task => "TASK"
  | .routine => "ROUTINE"
  | .subroutine => "SUBROUTINE"
  | .funcCall => "FUNC_CALL"
  | .scheduler => "SCHEDULER"
  | .timer => "TIMER"
  | .counter => "COUNTER"
  | .checkpoint => "CHECKPOINT"
  | .eventBlock => "EVENT_BLOCK"
  | .triggerBlock => "TRIGGER_BLOCK"
  | .debug => "DEBUG"
  | .inspect => "INSPECT"
  | .log => "LOG"
  | .trace => "TRACE"
  | .error => "ERROR"
  | .warning => "WARNING"
  | .assert => "ASSERT"
  | .raiseFlag => "RAISE_FLAG"
  | .watchdog => "WATCHDOG"
  | .matchWord => "MATCH"
  | .case => "CASE"
  | .default => "DEFAULT"
  | .query => "QUERY"
  | .lookup => "LOOKUP"
  | .state => "STATE"
  | .truth => "TRUTH"
  | .proof => "PROOF"
  | .context => "CONTEXT"
  | .append => "APPEND"
  | .insert => "INSERT"
  | .remove => "REMOVE"
  | .replaceItem => "REPLACE_ITEM"
  | .collect => "COLLECT"
  | .filter => "FILTER"
  | .fold => "FOLD"
  | .reduce => "REDUCE"
  | .map => "MAP"
  | .ping => "PING"
  | .send => "SEND"
  | .receive => "RECEIVE"
  | .connect => "CONNECT"
  | .disconnect => "DISCONNECT"
  | .listenSocket => "LISTEN_SOCKET"
  | .refer => "REFER"
  | .crossref => "CROSSREF"
  | .resolve => "RESOLVE"
  | .result => "RESULT"
  | .checksum => "CHECKSUM"
  | .key => "KEY"
  | .scale => "SCALE"
  | .weight => "WEIGHT"
  | .alt => "ALT"
  | .trickle => "TRICKLE"
  | .subvert => "SUBVERT"
  | .except => "EXCEPT"
  | .insteadOf => "INSTEAD_OF"
  | .simulate => "SIMULATE"
  | .rotate => "ROTATE"
  | .delete => "DELETE"

/-- The name of an operator's kind. -/
def Operator.name : Operator → String
  | .assign => "ASSIGN"
  | .equal => "IMMUTABLE_ASSIGN"
  | .plus => "PLUS"
  | .minus => "MINUS"
  | .times => "MUL"
  | .divide => "DIV"
  | .modulo => "MOD"
  | .power => "EXPONENT"
  | .not => "NOT"
  | .notEqual => "NEQ"
  | .less => "LT"
  | .greater => "GT"
  | .lessEqual => "LE"
  | .greaterEqual => "GE"
  | .transition => "TRANSITION"
  | .raise => "RAISE"
  | .config => "CONFIG"
  | .throwArrow => "THROW_ARROW"
  | .rollback => "ROLLBACK"
  | .run => "RUN"
  | .specifier => "SPECIFIER"
  | .modifier => "MODIFIER"
  | .pipe => "PIPE"

/-- The name of a mark's kind. -/
def Mark.name : Mark → String
  | .semicolon => "SEMICOLON"
  | .colon => "COLON"
  | .comma => "COMMA"
  | .dot => "DOT"
  | .leftParen => "LPAREN"
  | .rightParen => "RPAREN"
  | .leftBrace => "LBRACE"
  | .rightBrace => "RBRACE"
  | .leftBracket => "LBRACKET"
  | .rightBracket => "RBRACKET"

/-- The name of a kind. -/
def Kind.name : Kind → String
  | keyword word => word.name
  | operator op => op.name
  | mark m => m.name
  | number => "NUMBER"
  | text => "STRING_LITERAL"
  | identifier => "IDENTIFIER"
  | comment => "COMMENT"
  | blockComment => "MULTILINE_COMMENT"
  | finish => "END_OF_STREAM"
  | unknown => "UNKNOWN"

/-! ## Every kind once, in order -/

/-- Every reserved word, in order. -/
def Keyword.all : List Keyword := [
  .start, .returnWord, .ifWord, .elseWord, .forWord, .whileWord, .loop, .repeatWord, .tryWord,
  .catchWord, .throw, .defer, .breakWord, .continueWord, .halt, .pause, .async, .await, .mutex,
  .coroutine, .schedule, .event, .trigger, .watch, .listen, .init, .letWord, .val, .var, .const,
  .static, .dynamic, .int, .float, .bool, .string, .char, .nullval, .trueval, .falseval, .alloc,
  .free, .pointer, .memory, .reference, .scope, .boundary, .sweep, .garbage, .and, .or, .xor,
  .nand, .nor, .implies, .conditional, .macroBegin, .macroEnd, .texturizer, .inlineMacro,
  .struct, .classWord, .enum, .func, .call, .tuple, .array, .list, .matrix, .vector, .node,
  .child, .branch, .nest, .category, .label, .descriptor, .typedef, .file, .folder, .socket,
  .api, .link, .bind, .wrap, .interop, .input, .output, .io, .openWord, .close, .read, .write,
  .compile, .render, .replace, .accept, .encrypt, .decrypt, .obfuscate, .cipher, .proxy,
  .firewall, .secure, .unsecure, .privateWord, .publicWord, .deny, .allow, .bypass, .validate,
  .configure, .task, .routine, .subroutine, .funcCall, .scheduler, .timer, .counter, .checkpoint,
  .eventBlock, .triggerBlock, .debug, .inspect, .log, .trace, .error, .warning, .assert,
  .raiseFlag, .watchdog, .matchWord, .case, .default, .query, .lookup, .state, .truth, .proof,
  .context, .append, .insert, .remove, .replaceItem, .collect, .filter, .fold, .reduce, .map,
  .ping, .send, .receive, .connect, .disconnect, .listenSocket, .refer, .crossref, .resolve,
  .result, .checksum, .key, .scale, .weight, .alt, .trickle, .subvert, .except, .insteadOf,
  .simulate, .rotate, .delete]

/-- Every operator, in order. -/
def Operator.all : List Operator := [
  .assign, .equal, .plus, .minus, .times, .divide, .modulo, .power, .not, .notEqual, .less,
  .greater, .lessEqual, .greaterEqual, .transition, .raise, .config, .throwArrow, .rollback,
  .run, .specifier, .modifier, .pipe]

/-- Every mark, in order. -/
def Mark.all : List Mark := [
  .semicolon, .colon, .comma, .dot, .leftParen, .rightParen, .leftBrace, .rightBrace,
  .leftBracket, .rightBracket]

namespace Kind

/-- Every kind, in order: reserved words, operators, marks, and the rest. -/
def all : List Kind :=
  Keyword.all.map keyword ++ Operator.all.map operator ++ Mark.all.map mark ++
    [number, text, identifier, comment, blockComment, finish, unknown]

/-- The number of a kind: its place in `all`, counted from 1. -/
def number? (kind : Kind) : Option Nat := (all.idxOf? kind).map (· + 1)

/-- The kind of a given name. -/
def ofName? (name : String) : Option Kind := all.find? (·.name == name)

end Kind

theorem Keyword.mem_all (word : Keyword) : word ∈ Keyword.all := by
  cases word <;> decide

theorem Kind.mem_all (kind : Kind) : kind ∈ Kind.all := by
  unfold Kind.all
  cases kind with
  | keyword word => simp [Keyword.mem_all word]
  | operator op => cases op <;> simp [Operator.all]
  | mark m => cases m <;> simp [Mark.all]
  | _ => simp

end ScriptFrontend
