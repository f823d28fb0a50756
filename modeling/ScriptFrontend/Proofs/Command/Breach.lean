import ScriptFrontend.Command.Call
import ScriptFrontend.Proofs.Command.Run
import ScriptFrontend.Proofs.Text.LineEnds
import ScriptFrontend.Proofs.Text.Split

/-!
# Proofs/Command/Breach — what breaks a run off, and what a call makes of it

A run is broken off by a source that cannot be read, an alias file whose contents cannot be
(`AliasFile.Unreadable`), or a place to write to that does not open; anything else ends it with a
status.  So with a source that is given itself, the contents of the alias file break a run off
exactly if they are unreadable (`Aliases.load_refusals`).

A call makes an error of a breach: it ends with the status 1 and says so on a line of its own, as
does a run that ends with this status (`explained_run`).  Only an alias file that is nested too
deeply breaks a call off (`call_ends`).
-/

namespace ScriptFrontend

/-! ## Lines -/

/-- The characters that a notice adds to the messages: a line with its end, or nothing. -/
def Notice.chars (records : Bool) : Notice → List Char
  | .plain text => text.toList ++ ['\n']
  | .step record => if records then record.text.toList ++ ['\n'] else []

theorem toList_messages (report : Report) (records : Bool) :
    (report.messages records).toList = report.notices.flatMap (Notice.chars records) := by
  rw [Report.messages, String.toList_join, List.flatMap_map]
  congr 1
  funext notice
  cases notice with
  | plain text => simp [Notice.chars]
  | step record =>
    cases records <;> simp [Notice.chars]

/-- The lines of what stands behind notices are lines of the whole. -/
theorem mem_lines_behind {line rest : List Char} (records : Bool) (notices : List Notice)
    (h : line ∈ splitCharsAround '\n' rest) :
    line ∈ splitCharsAround '\n' (notices.flatMap (Notice.chars records) ++ rest) := by
  have hline (text : String) (further : List Char) (h : line ∈ splitCharsAround '\n' further) :
      line ∈ splitCharsAround '\n' (text.toList ++ ['\n'] ++ further) := by
    rw [List.append_assoc, List.singleton_append, splitCharsAround_append]
    exact List.mem_append_right _ h
  induction notices with
  | nil => exact h
  | cons notice notices ih =>
    rw [List.flatMap_cons, List.append_assoc]
    cases notice with
    | plain text => exact hline text _ ih
    | step record =>
      cases records with
      | true => exact hline record.text _ ih
      | false => exact ih

/-- **A notice starts a line of the messages.** -/
theorem exists_line {report : Report} {front text : String} (hfront : '\n' ∉ front.toList)
    (h : Notice.plain (front ++ text) ∈ report.notices) (records : Bool) :
    ∃ rest : String, front ++ rest ∈ splitAround '\n' (report.messages records) := by
  obtain ⟨before, behind, heq⟩ := List.append_of_mem h
  obtain ⟨part, parts, hparts⟩ := splitCharsAround_unmarked hfront
    (text.toList ++ ['\n'] ++ behind.flatMap (Notice.chars records))
  have hmem : front.toList ++ part ∈
      splitCharsAround '\n' (report.messages records).toList := by
    rw [toList_messages, heq, List.flatMap_append, List.flatMap_cons]
    refine mem_lines_behind records before ?_
    rw [Notice.chars, String.toList_append, List.append_assoc, List.append_assoc,
      ← List.append_assoc text.toList, hparts]
    exact List.mem_cons_self
  refine ⟨String.ofList part, List.mem_map.2 ⟨_, hmem, ?_⟩⟩
  rw [String.ofList_append, String.ofList_toList]

/-! ## What breaks a run off -/

/-- A breach that comes of what is in a file. -/
def Breach.isOfContents : Breach → Bool
  | .encoding _ | .longInteger _ | .tooDeep => true
  | _ => false

/-- A notice of an error. -/
def Report.Complains (report : Report) : Prop :=
  ∃ text : String, .plain ("error: " ++ text) ∈ report.notices

namespace Task

open AliasFile (Unreadable)

variable {task : Task} {folder : Folder} {text : String}

/-- **How a run ends that was not broken off by a file it reads**: with the status 0, with the
status 1 and an error, or at a place to write to that does not open. -/
inductive Explained (task : Task) (report : Report) : Prop where
  | success (h : report.ending = .status 0)
  | failure (h : report.ending = .status 1) (hnotice : report.Complains)
  | closed {path : String} {fault : PathFault} (hout : task.outPath? = some path)
    (h : report.ending = .broken (.path fault path))

theorem Explained.after {report : Report} (notices : List Notice) (h : task.Explained report) :
    task.Explained (report.after notices) := by
  cases h with
  | success h => exact .success h
  | failure h hnotice =>
    obtain ⟨text, hmem⟩ := hnotice
    exact .failure h ⟨text, List.mem_append_right _ hmem⟩
  | closed hout h => exact .closed hout h

theorem explained_refuse (task : Task) (folder : Folder) (text : String) (lines : List String) :
    task.Explained (refuse folder (("error: " ++ text) :: lines)) :=
  .failure rfl ⟨text, List.mem_cons_self⟩

theorem explained_writeOut (task : Task) (folder : Folder) (json : Json) :
    task.Explained (task.writeOut folder json) := by
  rw [writeOut]
  split
  next => exact explained_refuse task folder "Syntax tree nested too deeply to serialize" []
  next =>
    rw [emit]
    split
    next => exact .success rfl
    next path hout =>
      split
      next => exact .closed hout rfl
      next => exact .success rfl

theorem explained_process (task : Task) (folder : Folder) (vocabulary : Vocabulary)
    (text : String) : task.Explained (task.process folder vocabulary text) := by
  unfold process
  dsimp only
  refine .after _ ?_
  split
  next => exact explained_writeOut task folder _
  all_goals
    refine .after _ ?_
    split
    next => exact explained_refuse task folder _ []
    next => exact explained_writeOut task folder _

/-! ### The aliases of a run -/

theorem loadAliases_unreadable {path : String} {bytes : List UInt8}
    (hfile : aliasBytes folder path = .ok (some bytes)) (h : Unreadable bytes) :
    ∃ breach, loadAliases folder path = .error breach ∧ breach.isOfContents = true := by
  obtain ⟨flaw, hflaw, hne⟩ := Aliases.fileAdditions_unreadable .empty h
  rw [loadAliases, hfile]
  dsimp only
  rw [hflaw]
  cases flaw with
  | aliases flaw => exact absurd rfl (hne flaw)
  | encoding flaw => exact ⟨_, rfl, rfl⟩
  | longInteger digits => exact ⟨_, rfl, rfl⟩
  | tooDeep => exact ⟨_, rfl, rfl⟩

theorem loadAliases_readable {path : String} {file : Option (List UInt8)}
    (hfile : aliasBytes folder path = .ok file) (h : ∀ bytes ∈ file, ¬ Unreadable bytes) :
    ∃ result, loadAliases folder path = .ok result := by
  rw [loadAliases, hfile]
  dsimp only
  rcases Aliases.fileAdditions_readable .empty h with ⟨fresh, heq⟩ | ⟨flaw, heq⟩
  · exact ⟨_, by rw [heq]⟩
  · exact ⟨_, by rw [heq]⟩

theorem loadAliases_tooDeep_iff {path : String} :
    loadAliases folder path = .error .tooDeep ↔
      ∃ content : String, folder.read path = .ok content.toUTF8.toList ∧
        Json.read AliasFile.nestingLimit (unifyLineEnds content) = .error .tooDeep := by
  rw [loadAliases, aliasBytes]
  constructor
  · intro h
    rcases hread : folder.read path with fault | bytes
    · rw [hread] at h
      cases fault <;> cases h
    · rw [hread] at h
      dsimp only at h
      split at h
      all_goals try cases h
      next hflaw =>
      obtain ⟨content, rfl, hdeep⟩ := Aliases.fileAdditions_tooDeep_iff.1 hflaw
      exact ⟨content, rfl, hdeep⟩
  · rintro ⟨content, hread, hdeep⟩
    rw [hread]
    dsimp only
    rw [Aliases.fileAdditions_tooDeep_iff.2 ⟨content, rfl, hdeep⟩]

/-- A run whose files can be read is not broken off by them. -/
theorem explained_run (hsource : task.Source folder text)
    (haliases : ∀ path ∈ givenPath task.aliases, ∃ result, loadAliases folder path = .ok result) :
    task.Explained (task.run folder) := by
  rw [run, sourceText_eq_ok_iff.2 hsource]
  dsimp only
  split
  next => exact explained_process task folder _ _
  next path hpath =>
    obtain ⟨result, hresult⟩ := haliases path hpath
    rw [hresult]
    cases result with
    | error flaw => exact explained_refuse task folder _ _
    | ok aliases => exact .after _ (explained_process task folder _ _)

/-- A run with an alias file that breaks it off. -/
theorem ending_loadAliases (hsource : task.Source folder text) {path : String} {breach : Breach}
    (hpath : givenPath task.aliases = some path) (h : loadAliases folder path = .error breach) :
    (task.run folder).ending = .broken breach := by
  rw [run, sourceText_eq_ok_iff.2 hsource]
  dsimp only
  rw [hpath]
  dsimp only
  rw [h]

theorem sourceText_ne_tooDeep (task : Task) (folder : Folder) :
    task.sourceText folder ≠ .error .tooDeep := by
  intro h
  unfold sourceText at h
  split at h
  next => cases h
  split at h
  next =>
    split at h
    next => cases h
    next bytes _ =>
      rcases hcontents : contentsOf bytes with flaw | text
      · rw [hcontents] at h
        cases h
      · rw [hcontents] at h
        cases h
  next => cases h

/-- **The steps at which a run can end**: reading the source, loading the aliases, and what follows
them. -/
theorem run_cases (task : Task) (folder : Folder) :
    (∃ breach, task.sourceText folder = .error breach ∧
      (task.run folder).ending = .broken breach) ∨
    (∃ text path breach, task.Source folder text ∧ givenPath task.aliases = some path ∧
      loadAliases folder path = .error breach ∧ (task.run folder).ending = .broken breach) ∨
    task.Explained (task.run folder) := by
  rcases hsource : task.sourceText folder with breach | text
  · exact .inl ⟨breach, rfl, by rw [run, hsource]⟩
  · have hsource := sourceText_eq_ok_iff.1 hsource
    by_cases haliases : ∀ path ∈ givenPath task.aliases,
        ∃ result, loadAliases folder path = .ok result
    · exact .inr (.inr (explained_run hsource haliases))
    · simp only [not_forall] at haliases
      obtain ⟨path, hpath, hnone⟩ := haliases
      rcases hload : loadAliases folder path with breach | result
      · exact .inr (.inl ⟨text, path, breach, hsource, hpath, hload,
          ending_loadAliases hsource hpath hload⟩)
      · exact absurd ⟨result, hload⟩ hnone

/-- **A run is broken off for depth exactly by an alias file** that is nested too deeply. -/
theorem ending_tooDeep_iff :
    (task.run folder).ending = .broken .tooDeep ↔
      (∃ text, task.Source folder text) ∧ ∃ path, givenPath task.aliases = some path ∧
        ∃ content : String, folder.read path = .ok content.toUTF8.toList ∧
          Json.read AliasFile.nestingLimit (unifyLineEnds content) = .error .tooDeep := by
  simp only [← loadAliases_tooDeep_iff]
  constructor
  · intro h
    rcases run_cases task folder with ⟨breach, hsource, hending⟩ |
      ⟨text, path, breach, hsource, hpath, hload, hending⟩ | hexplained
    · obtain rfl := Ending.broken.inj (hending.symm.trans h)
      exact absurd hsource (sourceText_ne_tooDeep task folder)
    · obtain rfl := Ending.broken.inj (hending.symm.trans h)
      exact ⟨⟨text, hsource⟩, path, hpath, hload⟩
    · cases hexplained with
      | success hzero => exact absurd (hzero.symm.trans h) nofun
      | failure hone => exact absurd (hone.symm.trans h) nofun
      | closed _ hpath => exact absurd (hpath.symm.trans h) nofun
  · rintro ⟨⟨text, hsource⟩, path, hpath, hload⟩
    exact ending_loadAliases hsource hpath hload

/-! ### Guarded runs -/

theorem ending_runGuarded_tooDeep (h : (task.run folder).ending = .broken .tooDeep) :
    (task.runGuarded folder).ending = .broken .tooDeep := by
  rw [runGuarded, h]
  exact h

/-- **How a guarded run ends.** -/
theorem runGuarded_cases (task : Task) (folder : Folder) :
    (task.runGuarded folder).ending = .status 0 ∨
    ((task.runGuarded folder).ending = .status 1 ∧ (task.runGuarded folder).Complains) ∨
    ((task.runGuarded folder).ending = .broken .tooDeep ∧
      (task.run folder).ending = .broken .tooDeep) := by
  have hbreach (breach : Breach) (h : (task.run folder).ending = .broken breach)
      (hne : breach ≠ .tooDeep) :
      (task.runGuarded folder).ending = .status 1 ∧ (task.runGuarded folder).Complains := by
    rw [runGuarded, h]
    cases breach with
    | tooDeep => exact absurd rfl hne
    | _ => exact ⟨rfl, _, List.mem_append_right _ List.mem_cons_self⟩
  have hstatus (status : Nat) (h : (task.run folder).ending = .status status) :
      task.runGuarded folder = task.run folder := by
    rw [runGuarded, h]
  rcases hending : (task.run folder).ending with status | breach
  · rw [hstatus status hending]
    rcases run_cases task folder with ⟨breach, -, hbroken⟩ | ⟨_, _, breach, -, -, -, hbroken⟩ |
      hexplained
    · exact absurd (hending.symm.trans hbroken) nofun
    · exact absurd (hending.symm.trans hbroken) nofun
    · cases hexplained with
      | success hzero => exact .inl hzero
      | failure hone hnotice => exact .inr (.inl ⟨hone, hnotice⟩)
      | closed _ hpath => exact absurd (hending.symm.trans hpath) nofun
  · by_cases hdeep : breach = .tooDeep
    · subst hdeep
      exact .inr (.inr ⟨ending_runGuarded_tooDeep hending, rfl⟩)
    · exact .inr (.inl (hbreach breach hending hdeep))

end Task

/-! ## Alias files -/

namespace Aliases

open AliasFile (Unreadable)

/-- **Only an unreadable alias file is not loaded or refused for its aliases**, whatever has been
requested before, and no file that is not loaded changes the aliases.  A run with a source that is
given itself is broken off by its alias file exactly if the file is unreadable; otherwise it ends
with the status 0 or 1, unless the place to write to does not open. -/
theorem load_refusals (requests : List Request) (file : Option (List UInt8)) :
    (((∃ next, (history requests).load file = .ok next) ∨
        ∃ flaw, (history requests).load file = .error (.aliases flaw)) ↔
      ∀ bytes ∈ file, ¬ Unreadable bytes) ∧
    (∀ flaw, (history requests).load file = .error flaw →
      history (requests ++ [.load file]) = history requests) ∧
    ∀ (task : Task) (folder : Folder) (path : String), task.isText = true →
      givenPath task.aliases = some path → Task.aliasBytes folder path = .ok file →
        ((∃ bytes ∈ file, Unreadable bytes) →
          ∃ breach, (task.run folder).ending = .broken breach ∧ breach.isOfContents = true) ∧
        ((∀ bytes ∈ file, ¬ Unreadable bytes) →
          (task.run folder).ending = .status 0 ∨ (task.run folder).ending = .status 1 ∨
            ∃ out fault, task.outPath? = some out ∧
              (task.run folder).ending = .broken (.path fault out)) := by
  refine ⟨⟨fun hload bytes hbytes hunreadable => ?_, fun hreadable => ?_⟩, fun flaw hload => ?_,
    fun task folder path htext hpath hfile => ⟨?_, fun hreadable => ?_⟩⟩
  · obtain rfl := Option.mem_def.1 hbytes
    obtain ⟨flaw, hflaw, hne⟩ := fileAdditions_unreadable (history requests) hunreadable
    rw [load, hflaw] at hload
    rcases hload with ⟨next, hnext⟩ | ⟨aliases, haliases⟩
    · cases hnext
    · exact hne aliases (Except.error.inj haliases)
  · rw [load]
    rcases fileAdditions_readable (history requests) hreadable with ⟨fresh, heq⟩ | ⟨flaw, heq⟩
    · exact .inl ⟨_, by rw [heq]; rfl⟩
    · exact .inr ⟨flaw, by rw [heq]; rfl⟩
  · rw [history_append, List.foldl_cons, List.foldl_nil, after,
      show (history requests).answer (.load file) = .error flaw from hload]
  · rintro ⟨bytes, hbytes, hunreadable⟩
    obtain rfl := Option.mem_def.1 hbytes
    obtain ⟨breach, hload, hcontents⟩ := Task.loadAliases_unreadable hfile hunreadable
    exact ⟨breach, Task.ending_loadAliases (.given htext) hpath hload, hcontents⟩
  · have haliases : ∀ other ∈ givenPath task.aliases,
        ∃ result, Task.loadAliases folder other = .ok result := by
      intro other hother
      obtain rfl := Option.some.inj (hpath.symm.trans hother)
      exact Task.loadAliases_readable hfile hreadable
    cases Task.explained_run (.given htext) haliases with
    | success h => exact .inl h
    | failure h => exact .inr (.inl h)
    | closed hout h => exact .inr (.inr ⟨_, _, hout, h⟩)

/-- A byte that no character starts with. -/
def strayByte : List UInt8 := [0xff]

/-- A task with an alias file and a source of one letter. -/
def letterTask : Task := { source := "x", isText := true, aliases := some "a.json" }

/-- The alias file of the task is found where it is the only file. -/
theorem aliasBytes_letterTask (bytes : List UInt8) :
    Task.aliasBytes (.ofFiles [("a.json", bytes)]) "a.json" = .ok (some bytes) := by
  rw [Task.aliasBytes, Folder.read_ofFiles (by decide +kernel) (by decide +kernel)
    (by decide +kernel) (by decide +kernel)]

/-- With a stray byte for its alias file the task is broken off, and with an empty object it is
not. -/
theorem load_refusals_letterTask :
    (∃ breach, (letterTask.run (.ofFiles [("a.json", strayByte)])).ending = .broken breach ∧
      breach.isOfContents = true) ∧
    ∃ status, (letterTask.run (.ofFiles [("a.json", "\x7b\x7d".toUTF8.toList)])).ending =
      .status status := by
  have hpath : givenPath letterTask.aliases = some "a.json" := by decide +kernel
  have hstray : contentsOf strayByte = .error ⟨.badStart, 0xff, 0, 1⟩ := by cbv
  have htext : contentsOf "\x7b\x7d".toUTF8.toList = .ok "\x7b\x7d" := by cbv
  have hreadable : ¬ Unreadable "\x7b\x7d".toUTF8.toList := by
    rw [AliasFile.unreadable_iff htext]
    rintro ⟨flaw, -, hflaw⟩
    have hread : Json.read AliasFile.nestingLimit "\x7b\x7d" = .ok (.object []) := by cbv
    cases hread.symm.trans hflaw
  obtain ⟨-, -, hstrayRun⟩ := load_refusals [] (some strayByte)
  obtain ⟨-, -, hrun⟩ := load_refusals [] (some "\x7b\x7d".toUTF8.toList)
  obtain ⟨hbreaks, -⟩ := hstrayRun letterTask _ "a.json" rfl hpath (aliasBytes_letterTask _)
  obtain ⟨-, hends⟩ := hrun letterTask _ "a.json" rfl hpath (aliasBytes_letterTask _)
  refine ⟨hbreaks ⟨_, rfl, .noText (contentsOf_eq_error hstray)⟩, ?_⟩
  rcases hends (by rintro _ ⟨⟩; exact hreadable) with hzero | hone | ⟨_, _, hout, -⟩
  · exact ⟨0, hzero⟩
  · exact ⟨1, hone⟩
  · cases hout

/-- A file of a stray byte is neither loaded nor refused for its aliases, and breaks a run off. -/
theorem strayByte_unreadable :
    (∃ flaw, (history []).load (some strayByte) = .error (.encoding flaw)) ∧
    ∃ flaw, (letterTask.run (.ofFiles [("a.json", strayByte)])).ending =
      .broken (.encoding flaw) := by
  have hadditions : empty.fileAdditions (some strayByte) =
      .error (.encoding ⟨.badStart, 0xff, 0, 1⟩) := by cbv
  have hpath : givenPath letterTask.aliases = some "a.json" := by decide +kernel
  refine ⟨⟨⟨.badStart, 0xff, 0, 1⟩, ?_⟩, ⟨.badStart, 0xff, 0, 1⟩, ?_⟩
  · rw [show history [] = empty from rfl, load, hadditions]
    rfl
  · refine Task.ending_loadAliases (.given rfl) hpath ?_
    rw [Task.loadAliases, aliasBytes_letterTask]
    dsimp only
    rw [hadditions]

end Aliases

/-! ## Calls -/

/-- **How a call ends**: with the status 0; with the status 1 and a line of messages that starts
with `error: `; with the status 2 exactly if the command line makes no sense; or broken off, exactly
by an alias file that is nested too deeply. -/
theorem call_ends (words : List String) (folder : Folder) :
    ((call words folder).1.ending = .status 0 ∨
      ((call words folder).1.ending = .status 1 ∧
        ∃ rest : String, "error: " ++ rest ∈
          splitAround '\n' ((call words folder).1.messages (call words folder).2)) ∨
      (call words folder).1.ending = .status refusedStatus ∨
      (call words folder).1.ending = .broken .tooDeep) ∧
    ((call words folder).1.ending = .status refusedStatus ↔ requestOf words = .refuse) ∧
    ((call words folder).1.ending = .broken .tooDeep ↔
      ∃ task verbose path, ∃ content : String, requestOf words = .run task verbose ∧
        (∃ text, task.Source folder text) ∧ givenPath task.aliases = some path ∧
        folder.read path = .ok content.toUTF8.toList ∧
        Json.read AliasFile.nestingLimit (unifyLineEnds content) = .error .tooDeep) := by
  rcases hrequest : requestOf words with ⟨task, verbose⟩ | _ | _
  · have hcall : call words folder = (task.runGuarded folder, verbose) := by rw [call, hrequest]
    have hdeep : (∃ task' verbose' path, ∃ content : String,
          Request.run task verbose = .run task' verbose' ∧
          (∃ text, task'.Source folder text) ∧ givenPath task'.aliases = some path ∧
          folder.read path = .ok content.toUTF8.toList ∧
          Json.read AliasFile.nestingLimit (unifyLineEnds content) = .error .tooDeep) ↔
        (task.run folder).ending = .broken .tooDeep := by
      rw [Task.ending_tooDeep_iff]
      constructor
      · rintro ⟨_, _, path, content, hrun, hsource, hpath, hread, hdeep⟩
        obtain ⟨rfl, rfl⟩ := Request.run.inj hrun
        exact ⟨hsource, path, hpath, content, hread, hdeep⟩
      · rintro ⟨hsource, path, hpath, content, hread, hdeep⟩
        exact ⟨task, verbose, path, content, rfl, hsource, hpath, hread, hdeep⟩
    rw [hdeep, hcall]
    dsimp only
    have hended {status : Nat} (h : (task.runGuarded folder).ending = .status status) :
        (task.run folder).ending ≠ .broken .tooDeep := fun hrun =>
      absurd (h.symm.trans (Task.ending_runGuarded_tooDeep hrun)) nofun
    rcases task.runGuarded_cases folder with hzero | ⟨hone, text, hnotice⟩ | ⟨hbroken, hrun⟩
    · simp [hzero, hended hzero, refusedStatus]
    · have hline := exists_line (by decide) hnotice verbose
      simp [hone, hended hone, refusedStatus, hline]
    · simp [hbroken, hrun]
  · have hcall : call words folder = ({ ending := .status 0, folder }, false) := by
      rw [call, hrequest]
    rw [hcall]
    simp [refusedStatus]
  · have hcall : call words folder = ({ ending := .status refusedStatus, folder }, false) := by
      rw [call, hrequest]
    rw [hcall]
    simp

/-- An alias file of opening brackets only. -/
def brackets (count : Nat) : String := String.ofList (List.replicate count '[')

theorem unifyLineEnds_brackets (count : Nat) : unifyLineEnds (brackets count) = brackets count :=
  unifyLineEnds_eq_self (by simp [brackets])

/-- Two thousand brackets break a call off: there is no status, and no line says what is wrong. -/
theorem brackets_break_off :
    (call ["-s", "x", "-a", "a.json"]
      (.ofFiles [("a.json", (brackets 2000).toUTF8.toList)])).1.ending = .broken .tooDeep := by
  have hrequest : requestOf ["-s", "x", "-a", "a.json"] = .run Aliases.letterTask false := by
    decide +kernel
  have hpath : givenPath Aliases.letterTask.aliases = some "a.json" := by decide +kernel
  have hread : (Folder.ofFiles [("a.json", (brackets 2000).toUTF8.toList)]).read "a.json" =
      .ok (brackets 2000).toUTF8.toList :=
    Folder.read_ofFiles (by decide +kernel) (by decide +kernel) (by decide +kernel)
      (by decide +kernel) _
  have hdeep : Json.read AliasFile.nestingLimit (unifyLineEnds (brackets 2000)) =
      .error .tooDeep := by
    have hparts : List.replicate 2000 '[' =
        List.replicate (AliasFile.nestingLimit + 1) '[' ++ List.replicate 1009 '[' := by
      rw [List.replicate_append_replicate, AliasFile.nestingLimit]
    rw [unifyLineEnds_brackets, brackets, hparts]
    exact Json.readWithin_brackets AliasFile.limits _
  rw [call, hrequest]
  exact Task.ending_runGuarded_tooDeep (Task.ending_loadAliases (.given rfl) hpath
    (Task.loadAliases_tooDeep_iff.2 ⟨_, hread, hdeep⟩))

end ScriptFrontend
