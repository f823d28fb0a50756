import ScriptFrontend.Json.Shown
import ScriptFrontend.Vocabulary

/-!
# Alias/Basic — further words for reserved words

An **alias** is a word that is to be read as a reserved word of some kind.  `Aliases` are those that
are known; `Aliases.vocabulary` is the language's vocabulary with them.

Aliases are added by a `Configuration`: groups of them, each with a `Target`.  `Aliases.configure`
adds all aliases of a configuration or none.  It refuses a target that is not the kind of a reserved
word and an alias that is not a single word, at the first one it meets, and otherwise every alias
that is given a kind other than its **established** one: the kind it was first given here, or has
been known by, or has in the language.

Groups are gone through by recursion, up to a limit (`Aliases.configureWithin`).  A group that is
nested deeper, and a value that should be shown in a message and cannot be, break a configuration
off: they have a `Refusal` of their own.
-/

namespace ScriptFrontend

/-- The aliases that are known, each once, with the kind of its reserved word. -/
structure Aliases where
  entries : List (String × Keyword)
  deriving DecidableEq, Inhabited

/-- What a group of aliases is to stand for. -/
inductive Target where
  | kind (kind : Kind)
  /-- A value that should be the name of a kind. -/
  | value (value : Json)

/-- Groups of aliases and what they are to stand for, in order. -/
abbrev Configuration := List (Json × Target)

/-- An alias that is given a kind other than its established one. -/
structure Conflict where
  word : String
  established : Keyword
  given : Keyword
  deriving DecidableEq

/-- What a conflict says. -/
def Conflict.text (conflict : Conflict) : String :=
  "'" ++ conflict.word ++ "' -> conflict between " ++ conflict.established.name ++ " and " ++
    conflict.given.name

/-- Why aliases are refused. -/
inductive AliasFlaw where
  /-- The configuration is no mapping. -/
  | notMapping
  /-- The file holds something other than a JSON object. -/
  | notObject
  /-- The file is not there, or holds no JSON. -/
  | unreadable
  /-- A value is the name of no kind; a message shows it. -/
  | unknownKind (shown : String)
  | notReserved (kind : Kind)
  | notWord (word : String)
  | collisions (conflicts : List Conflict)

namespace AliasFlaw

/-- What a flaw says. -/
def message : AliasFlaw → String
  | notMapping => "Configuration must be a dict"
  | notObject => "Alias file must contain a JSON object"
  | unreadable => "Failed to load alias file: ..."
  | unknownKind shown => "Unknown token kind: " ++ shown
  | notReserved kind => "Token kind " ++ kind.name ++ " is not a reserved keyword"
  | notWord word => "Alias " ++ quoted word ++ " is not a single word"
  | collisions _ => "Alias collision(s) detected"

/-- The conflicts that a flaw consists of. -/
def conflicts : AliasFlaw → List Conflict
  | collisions conflicts => conflicts
  | _ => []

end AliasFlaw

/-- Why a configuration is refused. -/
inductive Refusal where
  | flaw (flaw : AliasFlaw)
  /-- A group is nested too deeply. -/
  | tooDeep
  /-- A value that is the name of no kind cannot be shown. -/
  | unshown (cause : Json.Unshown)

/-- The refusal of a value that is the name of no kind. -/
def Refusal.ofUnknown (limit : Nat) (value : Json) : Refusal :=
  match value.bare limit with
  | .ok text => .flaw (.unknownKind text)
  | .error cause => .unshown cause

/-! ## Groups and targets -/

mutual

/-- The aliases in a group, unless arrays are nested deeper in it than a limit: a text is one alias,
an array holds groups, an object has its names. -/
def aliasesIn : (limit : Nat) → Json → Option (List String)
  | _, .string word => some [word]
  | 0, .array _ => none
  | limit + 1, .array groups => aliasesInAll limit groups
  | _, .object members => some (members.map Prod.fst)
  | _, _ => some []

/-- The aliases in several groups. -/
def aliasesInAll (limit : Nat) : List Json → Option (List String)
  | [] => some []
  | group :: rest => do
    let words ← aliasesIn limit group
    let further ← aliasesInAll limit rest
    return words ++ further

end

/-- Whether a text is a single word: an ASCII letter, then ASCII letters and digits. -/
def isWord (text : String) : Bool :=
  match text.toList with
  | [] => false
  | first :: rest => first.isAlpha && rest.all Char.isAlphanum

namespace Target

/-- The kind that a target names. -/
def kind? (limit : Nat) : Target → Except Refusal Kind
  | kind k => .ok k
  | value (.string name) =>
    match Kind.ofName? name with
    | some k => .ok k
    | none => .error (.ofUnknown limit (.string name))
  | value json => .error (.ofUnknown limit json)

/-- The reserved word's kind that a target names. -/
def resolve (limit : Nat) (target : Target) : Except Refusal Keyword :=
  match target.kind? limit with
  | .ok (.keyword word) => .ok word
  | .ok other => .error (.flaw (.notReserved other))
  | .error refusal => .error refusal

end Target

namespace Configuration

/-- A configuration with one more entry.  A group that is there already keeps its place and takes
the new target. -/
def put (configuration : Configuration) (group : Json) (target : Target) : Configuration :=
  match configuration with
  | [] => [(group, target)]
  | (other, old) :: rest =>
    if other.sameKey group then (other, target) :: rest else (other, old) :: put rest group target

/-- The configuration of some pairs. -/
def ofPairs (pairs : List (Json × Target)) : Configuration :=
  pairs.foldl (fun configuration pair => configuration.put pair.1 pair.2) []

/-- The configuration that a value spells, if it is a mapping. -/
def ofJson : Json → Except AliasFlaw Configuration
  | .object members => .ok (members.map fun member => (.string member.1, .value member.2))
  | _ => .error .notMapping

end Configuration

namespace Aliases

/-- The kind that an alias is known by. -/
def kind? (aliases : Aliases) (word : String) : Option Keyword := aliases.entries.lookup word

/-- The aliases with one more, unless it is known already. -/
def add (aliases : Aliases) (word : String) (kind : Keyword) : Aliases :=
  if (aliases.kind? word).isSome then aliases else ⟨aliases.entries ++ [(word, kind)]⟩

/-- No aliases. -/
def empty : Aliases := ⟨[]⟩

/-- **The vocabulary of the language with the aliases.** -/
def vocabulary (aliases : Aliases) : Vocabulary := .extend .standard aliases.entries

/-! ## Configuring -/

/-- What a configuration has come to: the aliases it adds, and the conflicts it has met, the last
one first. -/
structure Draft where
  fresh : Aliases := .empty
  conflicts : List Conflict := []

/-- The kind that an alias has to keep: the first of those it has here, among the known aliases, and
in the language. -/
def established (known : Aliases) (draft : Draft) (word : String) : Option Keyword :=
  (draft.fresh.kind? word).or ((known.kind? word).or (standardWords.lookup word))

/-- One alias of a kind. -/
def Draft.giving (known : Aliases) (kind : Keyword) (draft : Draft) (word : String) :
    Except Refusal Draft :=
  if isWord word then
    match established known draft word with
    | some other =>
      if other = kind then .ok { draft with fresh := draft.fresh.add word kind }
      else .ok { draft with conflicts := ⟨word, other, kind⟩ :: draft.conflicts }
    | none => .ok { draft with fresh := draft.fresh.add word kind }
  else .error (.flaw (.notWord word))

/-- All aliases of an entry. -/
def Draft.entering (limit : Nat) (known : Aliases) (draft : Draft) (entry : Json × Target) :
    Except Refusal Draft :=
  match entry.2.resolve limit with
  | .ok kind =>
    match aliasesIn limit entry.1 with
    | some words => words.foldlM (Draft.giving known kind) draft
    | none => .error .tooDeep
  | .error refusal => .error refusal

/-- The aliases that a configuration adds to the known ones, when values are gone through up to a
limit. -/
def additionsWithin (limit : Nat) (known : Aliases) (configuration : Configuration) :
    Except Refusal Aliases :=
  match configuration.foldlM (Draft.entering limit known) {} with
  | .ok draft =>
    if draft.conflicts.isEmpty then .ok draft.fresh
    else .error (.flaw (.collisions draft.conflicts.reverse))
  | .error refusal => .error refusal

/-- The aliases that a configuration adds to the known ones. -/
def additions (known : Aliases) (configuration : Configuration) : Except Refusal Aliases :=
  known.additionsWithin Json.recursionLimit configuration

/-- The known aliases and further ones. -/
def union (known fresh : Aliases) : Aliases :=
  fresh.entries.foldl (fun aliases entry => aliases.add entry.1 entry.2) known

/-- The aliases after a configuration, when values are gone through up to a limit. -/
def configureWithin (limit : Nat) (known : Aliases) (configuration : Configuration) :
    Except Refusal Aliases :=
  (known.additionsWithin limit configuration).map known.union

/-- **The aliases after a configuration.** -/
def configure (known : Aliases) (configuration : Configuration) : Except Refusal Aliases :=
  known.configureWithin Json.recursionLimit configuration

end Aliases

end ScriptFrontend
