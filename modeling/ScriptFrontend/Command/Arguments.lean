import ScriptFrontend.Command.Task
import ScriptFrontend.Text.Digit

/-!
# Command/Arguments — the words behind the command's name

A command line is a list of words.  A word is an **argument**, or it names switches: a flag, or a
setting with its value.  A switch has a long name, of which any start will do that no other name
has, and mostly a letter; letters of flags may be run together, and a setting may end the run.

The value of a setting follows the name and an equals sign, or the letter, or is the next argument.
An equals sign separates only if it stands behind the first letter: further on it belongs to the
value.  A value of two dashes in the same word takes the setting back.

Releases of the argument parser differ in a few spellings: in letters behind an equals sign (`-s=p`)
or behind the letter of the help (`-hx`), in an equals sign further on (`-po=f`, `-spm=ast`), and in
a value of two dashes (`--out=--`).  They are read here as release 3.11.2 reads them.

`Word.classify` says what a word is, looking at nothing else; `requestOf` then reads the words from
left to right, later settings replacing earlier ones.  Behind a word of two dashes every word is an
argument.  Exactly one argument is needed: the source.
-/

namespace ScriptFrontend

/-- A switch without a value. -/
inductive Flag where
  | help | string | pretty | listAliases | verbose
  deriving DecidableEq

/-- A switch with a value. -/
inductive Setting where
  | mode | out | aliases
  deriving DecidableEq

/-- A switch. -/
inductive Switch where
  | flag (flag : Flag)
  | setting (setting : Setting)
  deriving DecidableEq

namespace Switch

/-- The letters of the switches. -/
def letters : List (Char × Switch) := [
  ('h', .flag .help), ('s', .flag .string), ('m', .setting .mode), ('o', .setting .out),
  ('p', .flag .pretty), ('a', .setting .aliases), ('l', .flag .listAliases)]

/-- The long names of the switches, behind their two dashes. -/
def longNames : List (String × Switch) := [
  ("help", .flag .help), ("string", .flag .string), ("mode", .setting .mode),
  ("out", .setting .out), ("pretty", .flag .pretty), ("aliases", .setting .aliases),
  ("list-aliases", .flag .listAliases), ("verbose", .flag .verbose)]

end Switch

/-- What a switch does. -/
inductive Act where
  | turnOn (flag : Flag)
  /-- A setting gets a value, or is left with none. -/
  | set (setting : Setting) (value : Option String)
  deriving DecidableEq

/-- A word of a command line. -/
inductive Word where
  | argument (text : String)
  /-- A word that does something, and perhaps a setting whose value is the next word. -/
  | acts (acts : List Act) (awaiting : Option Setting)
  /-- A word with a dash that names no switch. -/
  | unknown
  /-- A flag with a value, or with something behind its letter that is no letter of a switch. -/
  | malformed
  /-- A start of more than one long name. -/
  | ambiguous
  deriving DecidableEq

namespace Word

/-- The value that a text gives to a setting: two dashes give none. -/
def valueOf (text : String) : Option String := if text = "--" then none else some text

/-- What a name does, with the value behind its equals sign. -/
def ofName : Switch → Option String → Word
  | .flag flag, none => .acts [.turnOn flag] none
  | .flag _, some _ => .malformed
  | .setting setting, none => .acts [] (some setting)
  | .setting setting, some value => .acts [.set setting (valueOf value)] none

/-- What a letter does, with the text behind it: the value of a setting, or further letters. -/
def ofLetters : Switch → List Char → Word
  | switch, [] => ofName switch none
  | .setting setting, value => ofName (.setting setting) (some (String.ofList value))
  | .flag flag, letter :: rest =>
    match Switch.letters.lookup letter with
    | none => .malformed
    | some switch =>
      match ofLetters switch rest with
      | .acts further awaiting => .acts (.turnOn flag :: further) awaiting
      | word => word

/-- What the first letter of a word does, with the text behind it, less an equals sign. -/
def ofFirstLetter (switch : Switch) : List Char → Word
  | ['='] => ofName switch (some "")
  | '=' :: rest => ofLetters switch rest
  | rest => ofLetters switch rest

/-- The part of a text before its first equals sign, and the part behind it. -/
def partAtEquals (text : List Char) : List Char × Option String :=
  match text.dropWhile (· != '=') with
  | [] => (text, none)
  | _ :: value => (text.takeWhile (· != '='), some (String.ofList value))

/-- The long names that start with a text: the text itself if it is one of them. -/
def longNamesFor (name : List Char) : List (String × Switch) :=
  match Switch.longNames.find? (·.1.toList == name) with
  | some entry => [entry]
  | none => Switch.longNames.filter fun entry => name.isPrefixOf entry.1.toList

/-- Whether a text is all decimal digits, and at least one. -/
def areDigits (text : List Char) : Bool := !text.isEmpty && text.all isDecimalDigit

/-- Whether the text behind a dash makes it a negative number: digits, or a point with digits behind
it and perhaps in front.  A newline may follow. -/
def isNumber (text : List Char) : Bool :=
  let digits := if text.getLast? = some '\n' then text.dropLast else text
  areDigits digits ||
    match digits.dropWhile (· != '.') with
    | [] => false
    | _ :: fraction => (digits.takeWhile (· != '.')).all isDecimalDigit && areDigits fraction

/-- A word that starts with a dash and names no switch: a negative number and a text with a blank
are arguments. -/
def unnamed (text : String) (behindDash : List Char) : Word :=
  if isNumber behindDash || text.toList.contains ' ' then .argument text else .unknown

/-- **What a word is.** -/
def classify (text : String) : Word :=
  match text.toList with
  | '-' :: '-' :: long =>
    let parts := partAtEquals long
    match longNamesFor parts.1 with
    | [] => unnamed text ('-' :: long)
    | [entry] => ofName entry.2 parts.2
    | _ => .ambiguous
  | '-' :: letter :: rest =>
    match Switch.letters.lookup letter with
    | some switch => ofFirstLetter switch rest
    | none => unnamed text (letter :: rest)
  | _ => .argument text

end Word

/-! ## Reading a command line -/

/-- What a command line asks for. -/
inductive Request where
  | run (task : Task) (verbose : Bool)
  | help
  | refuse
  deriving DecidableEq

/-- What has been read of a command line. -/
structure SoFar where
  /-- The task, but for its source. -/
  task : Task := { source := "" }
  verbose : Bool := false
  source : Option String := none
  /-- Whether a word was met that fits nowhere. -/
  stray : Bool := false
  /-- Whether the last word was the source. -/
  endsInSource : Bool := false

namespace SoFar

/-- The settings after an act, or what the command line comes to at once. -/
def act (soFar : SoFar) : Act → Except Request SoFar
  | .turnOn .help => .error .help
  | .turnOn .string => .ok { soFar with task := { soFar.task with isText := true } }
  | .turnOn .pretty => .ok { soFar with task := { soFar.task with pretty := true } }
  | .turnOn .listAliases => .ok { soFar with task := { soFar.task with listAliases := true } }
  | .turnOn .verbose => .ok { soFar with verbose := true }
  | .set .out path => .ok { soFar with task := { soFar.task with out := path } }
  | .set .aliases path => .ok { soFar with task := { soFar.task with aliases := path } }
  | .set .mode none => .ok { soFar with task := { soFar.task with mode := none } }
  | .set .mode (some name) =>
    match Mode.ofName? name with
    | some mode => .ok { soFar with task := { soFar.task with mode := some mode } }
    | none => .error .refuse

/-- The settings after some acts, none of which is an argument. -/
def acts (soFar : SoFar) (list : List Act) : Except Request SoFar :=
  list.foldlM act { soFar with endsInSource := false }

/-- The settings after a word that fits nowhere. -/
def misfit (soFar : SoFar) : SoFar := { soFar with stray := true, endsInSource := false }

/-- The settings after an argument. -/
def argument (soFar : SoFar) (text : String) : SoFar :=
  match soFar.source with
  | none => { soFar with source := some text, endsInSource := true }
  | some _ => soFar.misfit

/-- The settings after words without two dashes among them. -/
def words (soFar : SoFar) : List Word → Except Request SoFar
  | [] => .ok soFar
  | .argument text :: rest => words (soFar.argument text) rest
  | .unknown :: rest => words soFar.misfit rest
  | .acts list none :: rest =>
    match soFar.acts list with
    | .error request => .error request
    | .ok soFar => words soFar rest
  | .acts list (some setting) :: .argument value :: rest =>
    match soFar.acts (list ++ [.set setting (some value)]) with
    | .error request => .error request
    | .ok soFar => words soFar rest
  | .acts _ (some _) :: _ | .malformed :: _ | .ambiguous :: _ => .error .refuse

/-- The settings after two dashes and the arguments behind them.  The dashes belong to the source,
which has to be next to them. -/
def dashes (soFar : SoFar) (behind : List String) : SoFar :=
  match soFar.source, behind with
  | none, source :: rest =>
    { soFar with source := some source, stray := soFar.stray || !rest.isEmpty }
  | none, [] => soFar
  | some _, rest => { soFar with stray := soFar.stray || !soFar.endsInSource || !rest.isEmpty }

/-- What the settings come to at the end of the command line. -/
def request (soFar : SoFar) : Request :=
  match soFar.source with
  | none => .refuse
  | some source => if soFar.stray then .refuse else .run { soFar.task with source } soFar.verbose

end SoFar

/-- The words in front of the first one of two dashes, and those behind it, if it is there. -/
def cutAtDashes (words : List String) : List String × Option (List String) :=
  match words.dropWhile (· != "--") with
  | [] => (words, none)
  | _ :: behind => (words.takeWhile (· != "--"), some behind)

/-- **What a command line asks for.** -/
def requestOf (words : List String) : Request :=
  let parts := cutAtDashes words
  let front := parts.1.map Word.classify
  if front.contains .ambiguous then .refuse
  else
    match SoFar.words {} front with
    | .error request => request
    | .ok soFar => ((parts.2.map soFar.dashes).getD soFar).request

end ScriptFrontend
