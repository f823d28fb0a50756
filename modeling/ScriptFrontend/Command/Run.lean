import ScriptFrontend.Alias.File
import ScriptFrontend.Alias.Report
import ScriptFrontend.Command.Folder
import ScriptFrontend.Command.Task
import ScriptFrontend.Json.Writer
import ScriptFrontend.Parse.Macros
import ScriptFrontend.Token.Record
import ScriptFrontend.Tree.Record

/-!
# Command/Run — carrying out a task

`Task.run` reads the source, loads the aliases, and writes the tokens or the tree as JSON, to a file
or to the output.  Its `Report` says how the run ended, what was put out, and how the folder is
left.

A run ends with a status, 0 or 1, or is broken off by a `Breach`; `Task.runGuarded` turns every
breach but one into the status 1.  Something is written only by a run that ends with the status 0.

The report also holds records of the steps, among the messages and in their order; whether they are
shown is up to the caller.
-/

namespace ScriptFrontend

/-- What breaks a run off. -/
inductive Breach where
  /-- The source is a path without the suffix of source files. -/
  | noSourceFile
  | path (fault : PathFault) (path : String)
  | encoding (flaw : Utf8.Flaw)
  /-- An alias file holds an integer with too many digits. -/
  | longInteger (digits : Nat)
  /-- An alias file is nested too deeply. -/
  | tooDeep
  deriving DecidableEq

/-- What a breach says. -/
def Breach.message : Breach → String
  | noSourceFile => "Only .ciams files are supported."
  | path fault name => fault.message name
  | encoding flaw => flaw.message
  | longInteger digits =>
    "Exceeds the limit (" ++ toString Json.longestInteger ++
      " digits) for integer string conversion: value has " ++ toString digits ++
      " digits; use sys.set_int_max_str_digits() to increase the limit"
  | tooDeep => "Alias file nested too deeply"

/-- How a run ends. -/
inductive Ending where
  | status (status : Nat)
  | broken (breach : Breach)
  deriving DecidableEq

/-- A record of a step. -/
inductive StepRecord where
  | configured (count : Nat)
  | unterminated (place : Location)
  | lexed (count : Nat)
  | skipped (region : MacroRegion)
  | parsed (count : Nat)
  | rejected (message : String)
  | wrote (mode : Option Mode) (path : String)
  deriving DecidableEq

/-- A record as it is shown: where it comes from, and what happened. -/
def StepRecord.text : StepRecord → String
  | configured count =>
    "ciams.ciams_uimap: Configured " ++ toString count ++ " keyword aliases"
  | unterminated place =>
    "ciams.ciams_lexer: Unterminated string literal at line " ++ toString place.line ++ ", col " ++
      toString place.column
  | lexed count => "ciams.ciams_lexer: Lexed " ++ toString count ++ " tokens"
  | skipped region =>
    "ciams.ciams_parser: Skipped " ++ toString region.skipped ++ " tokens in macro " ++
      quoted region.name
  | parsed count => "ciams.ciams_parser: Parsed " ++ toString count ++ " top-level statements"
  | rejected message => "ciams.ciams_parser: Parse failed: " ++ message
  | wrote mode path => "ciams.ciams_cli: Wrote " ++ Mode.shown mode ++ " output to " ++ path

/-- A line of messages. -/
inductive Notice where
  | plain (text : String)
  | step (record : StepRecord)
  deriving DecidableEq

/-- What a run leaves behind. -/
structure Report where
  ending : Ending
  /-- What was put out. -/
  output : String := ""
  notices : List Notice := []
  folder : Folder

namespace Report

/-- The messages of a report, with the records of the steps if they are wanted. -/
def messages (report : Report) (records : Bool) : String :=
  String.join (report.notices.map fun
    | .plain text => text ++ "\n"
    | .step record => if records then record.text ++ "\n" else "")

/-- The report with notices in front. -/
def after (notices : List Notice) (report : Report) : Report :=
  { report with notices := notices ++ report.notices }

end Report

/-! ## The steps of a run -/

/-- How deep a value may be nested that is written as JSON. -/
def writingLimit : Nat := 1000

/-- The records of reading tokens. -/
def lexingRecords (tokens : List Token) : List StepRecord :=
  (tokens.filter fun token =>
    token.kind == .unknown && token.lexeme.toList.head? == some '"').map
      (fun token => .unterminated token.place) ++ [.lexed tokens.length]

/-- The records of parsing. -/
def parsingRecords (tokens : List Token) (result : Except Rejection Node) : List StepRecord :=
  (passedMacros tokens).map .skipped ++
    match result with
    | .ok program => [.parsed program.children.length]
    | .error rejection => [.rejected rejection.message]

/-- The notices of records. -/
def stepNotices (records : List StepRecord) : List Notice := records.map .step

namespace Task

/-- The path of the file to write to, if there is one. -/
def outPath? (task : Task) : Option String := givenPath task.out

/-- The suffix of source files. -/
def sourceSuffix : String := ".ciams"

/-- Whether a text ends with another one. -/
def endsWith (text ending : String) : Bool := ending.toList.isSuffixOf text.toList

/-- The source text. -/
def sourceText (task : Task) (folder : Folder) : Except Breach String :=
  if task.isText then .ok task.source
  else if endsWith task.source sourceSuffix then
    match folder.read task.source with
    | .error fault => .error (.path fault task.source)
    | .ok bytes => (contentsOf bytes).mapError .encoding
  else .error .noSourceFile

/-- Puts out a text. -/
def emit (task : Task) (folder : Folder) (text : String) : Report :=
  match task.outPath? with
  | none => { ending := .status 0, output := text, folder }
  | some path =>
    match folder.write path text.toUTF8.toList with
    | .error fault => { ending := .broken (.path fault path), folder }
    | .ok folder => { ending := .status 0, notices := [.step (.wrote task.mode path)], folder }

/-- A run that ends with the status 1. -/
def refuse (folder : Folder) (lines : List String) : Report :=
  { ending := .status 1, notices := lines.map .plain, folder }

/-- The text of a value. -/
def written (task : Task) (json : Json) : String :=
  (if task.pretty then json.pretty else json.compact) ++ "\n"

/-- Writes a value. -/
def writeOut (task : Task) (folder : Folder) (json : Json) : Report :=
  if json.depth > writingLimit then
    refuse folder ["error: Syntax tree nested too deeply to serialize"]
  else task.emit folder (task.written json)

/-- Writes the tokens of a text, or its tree. -/
def process (task : Task) (folder : Folder) (vocabulary : Vocabulary) (text : String) : Report :=
  let list := tokens vocabulary text
  .after (stepNotices (lexingRecords list)) <|
    match task.mode with
    | some .tokens => task.writeOut folder (.array (list.map Token.record))
    | some .tree | none =>
      let result := parseProgram list
      .after (stepNotices (parsingRecords list result)) <|
        match result with
        | .error rejection => refuse folder ["error: " ++ rejection.message]
        | .ok program => task.writeOut folder program.slotRecord

/-- The bytes of the alias file, if they can be read. -/
def aliasBytes (folder : Folder) (path : String) : Except Breach (Option (List UInt8)) :=
  match folder.read path with
  | .ok bytes => .ok (some bytes)
  | .error .zeroChar => .error (.path .zeroChar path)
  | .error _ => .ok none

/-- The aliases in the alias file. -/
def loadAliases (folder : Folder) (path : String) : Except Breach (Except AliasFlaw Aliases) :=
  match aliasBytes folder path with
  | .error breach => .error breach
  | .ok bytes =>
    match Aliases.fileAdditions .empty bytes with
    | .ok fresh => .ok (.ok fresh)
    | .error (.aliases flaw) => .ok (.error flaw)
    | .error (.encoding flaw) => .error (.encoding flaw)
    | .error (.longInteger digits) => .error (.longInteger digits)
    | .error .tooDeep => .error .tooDeep

/-- The lines that refuse aliases: what is wrong, and each conflict. -/
def refusalLines (flaw : AliasFlaw) : List String :=
  ("error: " ++ flaw.message) :: flaw.conflicts.map fun conflict => "  " ++ conflict.text

/-- **Carries out a task.** -/
def run (task : Task) (folder : Folder) : Report :=
  match task.sourceText folder with
  | .error breach => { ending := .broken breach, folder }
  | .ok text =>
    match givenPath task.aliases with
    | none => task.process folder .standard text
    | some path =>
      match loadAliases folder path with
      | .error breach => { ending := .broken breach, folder }
      | .ok (.error flaw) => refuse folder (refusalLines flaw)
      | .ok (.ok aliases) =>
        let listing := if task.listAliases then [.plain aliases.report] else []
        .after (.step (.configured aliases.entries.length) :: listing)
          (task.process folder aliases.vocabulary text)

/-- **Carries out a task and reports a breach as an error**, unless it comes of too deep nesting. -/
def runGuarded (task : Task) (folder : Folder) : Report :=
  let report := task.run folder
  match report.ending with
  | .broken .tooDeep | .status _ => report
  | .broken breach =>
    { report with
      ending := .status 1, notices := report.notices ++ [.plain ("error: " ++ breach.message)] }

end Task

end ScriptFrontend
