/-!
# Kind/Basic — the kinds of token

Every token has one **kind**.  The kinds fall into four families: the reserved words (`Keyword`),
the operators (`Operator`), the marks of punctuation (`Mark`), and the seven remaining kinds of
`Kind` itself — literals, identifiers, comments, the end of the text, and what no rule recognises.

The reserved words are many more than the grammar uses.  Being reserved is a matter of family, so
`Kind.isKeyword` holds by construction of exactly the kinds built from a `Keyword`.
-/

namespace ScriptFrontend

/-- A reserved word, named for what it is reserved for and not for how it is spelled.  The words
come in groups: control flow, concurrency, variables, memory, logic, scripts, structures, labels,
files, security, tasks, diagnostics, patterns, collections, networking, references, and modifiers of
flow. -/
inductive Keyword where
  | start | returnWord | ifWord | elseWord | forWord | whileWord | loop | repeatWord | tryWord
  | catchWord | throw | defer | breakWord | continueWord | halt | pause
  | async | await | mutex | coroutine | schedule | event | trigger | watch | listen
  | init | letWord | val | var | const | static | dynamic | int | float | bool | string | char
  | nullval | trueval | falseval
  | alloc | free | pointer | memory | reference | scope | boundary | sweep | garbage
  | and | or | xor | nand | nor | implies | conditional
  | macroBegin | macroEnd | texturizer | inlineMacro
  | struct | classWord | enum | func | call | tuple | array | list | matrix | vector | node
  | child | branch | nest
  | category | label | descriptor | typedef
  | file | folder | socket | api | link | bind | wrap | interop | input | output | io | openWord
  | close | read | write | compile | render | replace | accept
  | encrypt | decrypt | obfuscate | cipher | proxy | firewall | secure | unsecure | privateWord
  | publicWord | deny | allow | bypass | validate | configure
  | task | routine | subroutine | funcCall | scheduler | timer | counter | checkpoint
  | eventBlock | triggerBlock
  | debug | inspect | log | trace | error | warning | assert | raiseFlag | watchdog
  | matchWord | case | default | query | lookup | state | truth | proof | context
  | append | insert | remove | replaceItem | collect | filter | fold | reduce | map
  | ping | send | receive | connect | disconnect | listenSocket
  | refer | crossref | resolve | result | checksum | key | scale | weight
  | alt | trickle | subvert | except | insteadOf | simulate | rotate | delete
  deriving DecidableEq, Inhabited

/-- An operator. -/
inductive Operator where
  | assign | equal | plus | minus | times | divide | modulo | power | not | notEqual | less
  | greater | lessEqual | greaterEqual | transition | raise | config | throwArrow | rollback
  | run | specifier | modifier | pipe
  deriving DecidableEq, Inhabited

/-- A mark of punctuation. -/
inductive Mark where
  | semicolon | colon | comma | dot | leftParen | rightParen | leftBrace | rightBrace
  | leftBracket | rightBracket
  deriving DecidableEq, Inhabited

/-- The kind of a token. -/
inductive Kind where
  | keyword (word : Keyword)
  | operator (op : Operator)
  | mark (mark : Mark)
  | number
  | text
  | identifier
  | comment
  | blockComment
  | finish
  | unknown
  deriving DecidableEq, Inhabited

namespace Kind

/-- The kinds of the reserved words. -/
def isKeyword : Kind → Bool
  | keyword _ => true
  | _ => false

/-- The kinds that never reach a parser: both forms of comment. -/
def isDiscarded : Kind → Bool
  | comment | blockComment => true
  | _ => false

@[simp] theorem isKeyword_keyword (word : Keyword) : (keyword word).isKeyword = true := rfl

theorem isKeyword_iff {kind : Kind} : kind.isKeyword = true ↔ ∃ word, kind = keyword word := by
  cases kind <;> simp [isKeyword]

end Kind

end ScriptFrontend
