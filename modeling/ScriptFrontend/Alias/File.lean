import ScriptFrontend.Alias.Basic
import ScriptFrontend.Json.Reader
import ScriptFrontend.Text.Blank
import ScriptFrontend.Text.Contents
import ScriptFrontend.Text.Split

/-!
# Alias/File — aliases from a file

An alias file holds a JSON object.  Each of its names is a list of aliases separated by commas, with
blanks around them, and the value is the name of the kind they stand for.  Two names that list the
same aliases are one group.

The bytes of the file have to be UTF-8; any spelling of line ends will do.
-/

namespace ScriptFrontend

/-- Why an alias file cannot be used. -/
inductive AliasFileFlaw where
  | aliases (flaw : AliasFlaw)
  | encoding (flaw : Utf8.Flaw)
  | longInteger (digits : Nat)
  | tooDeep

/-- The refusal of a configuration, as a flaw of the file that holds it. -/
def AliasFileFlaw.ofRefusal : Refusal → AliasFileFlaw
  | .flaw flaw => .aliases flaw
  | .tooDeep => .tooDeep
  | .unshown .tooDeep => .tooDeep
  | .unshown (.longInteger digits) => .longInteger digits

namespace AliasFile

/-- How deep arrays and objects may be nested in an alias file. -/
def nestingLimit : Nat := 990

/-- The aliases that a name lists. -/
def listedAliases (name : String) : List String :=
  (splitAround ',' name).map trimBlanks

/-- The group of aliases that a name lists. -/
def groupOf (name : String) : Json := .array ((listedAliases name).map .string)

/-- The configuration that the value in an alias file spells. -/
def configurationOf : Json → Except AliasFlaw Configuration
  | .object members =>
    .ok (.ofPairs (members.map fun member => (groupOf member.1, .value member.2)))
  | _ => .error .notObject

/-- The JSON value that a text holds. -/
def value (text : String) : Except AliasFileFlaw Json :=
  match Json.read nestingLimit text with
  | .ok json => .ok json
  | .error .malformed => .error (.aliases .unreadable)
  | .error .tooDeep => .error .tooDeep
  | .error (.longInteger digits) => .error (.longInteger digits)

/-- **The configuration in an alias file**, which may be missing. -/
def configuration (bytes : Option (List UInt8)) : Except AliasFileFlaw Configuration :=
  match bytes.map contentsOf with
  | none => .error (.aliases .unreadable)
  | some (.error flaw) => .error (.encoding flaw)
  | some (.ok text) =>
    match value text with
    | .error flaw => .error flaw
    | .ok json => (configurationOf json).mapError .aliases

end AliasFile

namespace Aliases

/-- The aliases that an alias file adds to the known ones. -/
def fileAdditions (known : Aliases) (bytes : Option (List UInt8)) :
    Except AliasFileFlaw Aliases :=
  match AliasFile.configuration bytes with
  | .error flaw => .error flaw
  | .ok configuration => (known.additions configuration).mapError .ofRefusal

/-- **The aliases after loading an alias file.** -/
def load (known : Aliases) (bytes : Option (List UInt8)) : Except AliasFileFlaw Aliases :=
  (known.fileAdditions bytes).map known.union

end Aliases

end ScriptFrontend
