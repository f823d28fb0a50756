import ScriptFrontend.Command.Run
import ScriptFrontend.Proofs.Alias.Loading
import ScriptFrontend.Proofs.Command.Folder
import ScriptFrontend.Proofs.Tree.Slots

/-!
# Proofs/Command/Run — what is written, where, and when

A run ends with the status 0 exactly if there is something to be written and a place to write it to:
the source can be read, the aliases are accepted, the text parses unless its tokens are asked for,
and the file to write to opens (`Task.run_emits`).  Then the product is at one place, the output or
the file; after any other run there is no output and the folder is as it was.

`Task.Source`, `Task.Words` and `Task.Makes` say what a source, a vocabulary and a product are
without a run; `run_cases` and `process_cases` match the steps of a run with them.
-/

namespace ScriptFrontend

/-- What is written of a source text. -/
inductive Product where
  | tokens (list : List Token)
  | tree (program : Node)

/-- The record of a product. -/
def Product.record : Product → Json
  | tokens list => .array (list.map Token.record)
  | tree program => program.record

namespace Task

variable {task : Task} {folder : Folder} {text : String} {vocabulary : Vocabulary}
  {product : Product}

/-! ## What a task comes to -/

/-- **The text that the source of a task stands for**: itself, or the text of a source file. -/
inductive Source (task : Task) (folder : Folder) : String → Prop where
  | given (h : task.isText = true) : Source task folder task.source
  | file {front content : String} (h : task.isText = false)
    (hname : task.source = front ++ sourceSuffix)
    (hread : folder.read task.source = .ok content.toUTF8.toList) :
    Source task folder (unifyLineEnds content)

/-- **The vocabulary that a task is carried out with**: that of the language, or the one with the
aliases of an alias file that is accepted. -/
inductive Words (task : Task) (folder : Folder) : Vocabulary → Prop where
  | standard (h : givenPath task.aliases = none) : Words task folder .standard
  | merged {path : String} {bytes : List UInt8} {aliases : Aliases}
    (h : givenPath task.aliases = some path) (hread : folder.read path = .ok bytes)
    (hload : Aliases.empty.load (some bytes) = .ok aliases) :
    Words task folder aliases.vocabulary

/-- **What is made of tokens**: themselves, or the tree that they are parsed into, if it is not
nested too deeply to be written. -/
inductive Makes (mode : Option Mode) (list : List Token) : Product → Prop where
  | tokens (h : mode = some .tokens) : Makes mode list (.tokens list)
  | tree {program : Node} (h : mode ≠ some .tokens) (hparse : parseProgram list = .ok program)
    (hdepth : program.record.depth ≤ writingLimit) : Makes mode list (.tree program)

/-- **What a task comes to in a folder.** -/
def Yields (task : Task) (folder : Folder) (product : Product) : Prop :=
  ∃ text vocabulary, task.Source folder text ∧ task.Words folder vocabulary ∧
    Makes task.mode (tokens vocabulary text) product

/-- **A text is at the one place where a task puts it**, and nothing else is changed. -/
inductive Delivers (task : Task) (folder : Folder) (text : String) (report : Report) : Prop where
  | output (hout : task.outPath? = none) (htext : report.output = text)
    (hfolder : report.folder = folder)
  | file {path : String} (hout : task.outPath? = some path) (hnone : report.output = "")
    (htext : report.folder.read path = .ok text.toUTF8.toList)
    (hothers : ∀ names, names ≠ Folder.namesOf path →
      report.folder.bytes? names = folder.bytes? names)
    (hfolders : report.folder.folders = folder.folders)

/-- Nothing is put out and nothing is changed, by a run that does not end with the status 0. -/
structure Quiet (folder : Folder) (report : Report) : Prop where
  ending : report.ending ≠ .status 0
  status : ∀ status, report.ending = .status status → status = 1
  output : report.output = ""
  folder : report.folder = folder

/-! ## Source and vocabulary -/

theorem endsWith_iff {text ending : String} :
    endsWith text ending = true ↔ ∃ front : String, text = front ++ ending := by
  rw [endsWith, List.isSuffixOf_iff_suffix]
  constructor
  · rintro ⟨front, heq⟩
    exact ⟨String.ofList front, String.toList_inj.1 (by simp [heq])⟩
  · rintro ⟨front, rfl⟩
    exact ⟨front.toList, by simp⟩

theorem sourceText_eq_ok_iff : task.sourceText folder = .ok text ↔ task.Source folder text := by
  unfold sourceText
  constructor
  · intro h
    split at h
    next hgiven =>
      obtain rfl := Except.ok.inj h
      exact .given hgiven
    next hfile =>
      split at h
      next hname =>
        obtain ⟨front, hname⟩ := endsWith_iff.1 hname
        split at h
        next => cases h
        next bytes hread =>
          obtain ⟨content, rfl, rfl⟩ := contentsOf_eq_ok_iff.1 (Aliases.mapError_eq_ok_iff.1 h)
          exact .file (by simpa using hfile) hname hread
      next => cases h
  · rintro (hgiven | ⟨hfile, hname, hread⟩)
    · rw [if_pos hgiven]
    · rw [if_neg (by rw [hfile]; nofun), if_pos (endsWith_iff.2 ⟨_, hname⟩), hread]
      exact Aliases.mapError_eq_ok_iff.2 (contentsOf_eq_ok_iff.2 ⟨_, rfl, rfl⟩)

theorem loadAliases_eq_ok_iff {path : String} {aliases : Aliases} :
    loadAliases folder path = .ok (.ok aliases) ↔
      ∃ bytes, folder.read path = .ok bytes ∧ Aliases.empty.load (some bytes) = .ok aliases := by
  rw [loadAliases, aliasBytes]
  rcases folder.read path with fault | bytes
  · cases fault <;> simp [Aliases.fileAdditions, AliasFile.configuration]
  · simp only [Except.ok.injEq, exists_eq_left', Aliases.load_empty]
    rcases Aliases.empty.fileAdditions (some bytes) with flaw | fresh
    · cases flaw <;> simp
    · simp

theorem Source.unique {other : String} (h : task.Source folder text)
    (hother : task.Source folder other) : other = text :=
  Except.ok.inj ((sourceText_eq_ok_iff.2 hother).symm.trans (sourceText_eq_ok_iff.2 h))

theorem Words.unique {other : Vocabulary} (h : task.Words folder vocabulary)
    (hother : task.Words folder other) : other = vocabulary := by
  cases h with
  | standard hnone =>
    cases hother with
    | standard => rfl
    | merged hsome => exact absurd (hnone.symm.trans hsome) nofun
  | merged hsome hread hload =>
    cases hother with
    | standard hnone => exact absurd (hnone.symm.trans hsome) nofun
    | merged hsome' hread' hload' =>
      obtain rfl := Option.some.inj (hsome.symm.trans hsome')
      obtain rfl := Except.ok.inj (hread.symm.trans hread')
      rw [Except.ok.inj (hload.symm.trans hload')]

/-- An alias file that a task's vocabulary has the aliases of is accepted. -/
theorem Words.loaded (h : task.Words folder vocabulary) {path : String}
    (hpath : givenPath task.aliases = some path) :
    ∃ aliases, loadAliases folder path = .ok (.ok aliases) := by
  cases h with
  | standard hnone => exact absurd (hpath.symm.trans hnone) nofun
  | merged hsome hread hload =>
    obtain rfl := Option.some.inj (hpath.symm.trans hsome)
    exact ⟨_, loadAliases_eq_ok_iff.2 ⟨_, hread, hload⟩⟩

/-- What a task comes to, once its source and its vocabulary are known. -/
theorem yields_iff (hsource : task.Source folder text) (hwords : task.Words folder vocabulary) :
    task.Yields folder product ↔ Makes task.mode (tokens vocabulary text) product := by
  constructor
  · rintro ⟨text', vocabulary', hsource', hwords', hmakes⟩
    rwa [hsource.unique hsource', hwords.unique hwords'] at hmakes
  · exact fun hmakes => ⟨text, vocabulary, hsource, hwords, hmakes⟩

/-! ## The steps of a run -/

theorem after_ending (notices : List Notice) (report : Report) :
    (report.after notices).ending = report.ending := rfl

/-- How a run ends and what it leaves, but for its messages. -/
inductive Outcome (task : Task) (folder : Folder) (report : Report) : Prop where
  /-- A product is written. -/
  | written {product : Product} (hyields : task.Yields folder product)
    (hopens : ∀ path ∈ task.outPath?, folder.Opens path) (hending : report.ending = .status 0)
    (hdelivers : task.Delivers folder (task.written product.record) report)
  /-- There is no product, or no place for it. -/
  | quiet (h : ¬ ((∃ product, task.Yields folder product) ∧
      ∀ path ∈ task.outPath?, folder.Opens path)) (hquiet : Quiet folder report)

theorem Delivers.after {report : Report} (notices : List Notice)
    (h : task.Delivers folder text report) : task.Delivers folder text (report.after notices) := by
  cases h with
  | output hout htext hfolder => exact .output hout htext hfolder
  | file hout hnone htext hothers hfolders => exact .file hout hnone htext hothers hfolders

theorem Outcome.after {report : Report} (notices : List Notice)
    (h : task.Outcome folder report) : task.Outcome folder (report.after notices) := by
  cases h with
  | written hyields hopens hending hdelivers =>
    exact .written hyields hopens hending (hdelivers.after notices)
  | quiet h hquiet => exact .quiet h ⟨hquiet.1, hquiet.2, hquiet.3, hquiet.4⟩

theorem quiet_refuse (folder : Folder) (lines : List String) : Quiet folder (refuse folder lines) :=
  ⟨nofun, fun _ h => (Ending.status.inj h).symm, rfl, rfl⟩

theorem quiet_broken (folder : Folder) (breach : Breach) :
    Quiet folder { ending := .broken breach, folder } :=
  ⟨nofun, nofun, rfl, rfl⟩

/-- **A text is put at its place**, if there is one. -/
theorem outcome_emit (hyields : task.Yields folder product) :
    task.Outcome folder (task.emit folder (task.written product.record)) := by
  rw [emit]
  split
  next hout => exact .written hyields (by simp [hout]) rfl (.output hout rfl rfl)
  next path hout =>
    split
    next fault hwrite =>
      refine .quiet (fun h => ?_) (quiet_broken folder _)
      obtain ⟨after, hafter⟩ := (Folder.opens_iff _).1 (h.2 path hout)
      exact absurd (hwrite.symm.trans hafter) nofun
    next after hwrite =>
      have hopens : folder.Opens path := (Folder.opens_iff _).2 ⟨after, hwrite⟩
      refine .written hyields (by simp [hout, hopens]) rfl
        (.file hout rfl (Folder.read_of_write hwrite) (fun names hnames => ?_)
          (Folder.folders_of_write hwrite))
      exact (Folder.bytes?_of_write hwrite names).trans (if_neg hnames)

/-- How deep the records of tokens are nested. -/
theorem depth_tokens (list : List Token) : (Product.tokens list).record.depth ≤ writingLimit := by
  have hitems : Json.depthOfItems (list.map Token.record) ≤ 1 := by
    induction list with
    | nil => exact Nat.zero_le _
    | cons token rest ih => exact Nat.max_le.2 ⟨Nat.le_refl 1, ih⟩
  exact Nat.le_trans (Nat.succ_le_succ hitems) (by decide)

/-- A product is written, unless it is nested too deeply. -/
theorem outcome_writeOut (product : Product)
    (hyields : product.record.depth ≤ writingLimit → task.Yields folder product)
    (hnone : ¬ product.record.depth ≤ writingLimit → ¬ ∃ product, task.Yields folder product) :
    task.Outcome folder (task.writeOut folder product.record) := by
  rw [writeOut]
  split
  next hdeep => exact .quiet (fun h => hnone (Nat.not_le_of_gt hdeep) h.1) (quiet_refuse folder _)
  next hdepth => exact outcome_emit (hyields (Nat.le_of_not_gt hdepth))

/-- The tree of a text is written, if there is one. -/
theorem outcome_parse (hmode : task.mode ≠ some .tokens) (hsource : task.Source folder text)
    (hwords : task.Words folder vocabulary) :
    task.Outcome folder (match parseProgram (tokens vocabulary text) with
      | .error rejection => refuse folder ["error: " ++ rejection.message]
      | .ok program => task.writeOut folder program.slotRecord) := by
  split
  next rejection hparse =>
    refine .quiet (fun h => ?_) (quiet_refuse folder _)
    obtain ⟨product, hproduct⟩ := h.1
    cases (yields_iff hsource hwords).1 hproduct with
    | tokens htokens => exact hmode htokens
    | tree _ hprogram => exact absurd (hparse.symm.trans hprogram) nofun
  next program hparse =>
    have hyields (hdepth : program.record.depth ≤ writingLimit) :
        task.Yields folder (.tree program) :=
      (yields_iff hsource hwords).2 (.tree hmode hparse hdepth)
    rw [program.slotRecord_eq]
    refine outcome_writeOut (.tree program) hyields ?_
    rintro hdeep ⟨product, hproduct⟩
    cases (yields_iff hsource hwords).1 hproduct with
    | tokens htokens => exact hmode htokens
    | tree _ hprogram hdepth =>
      exact hdeep (Except.ok.inj (hparse.symm.trans hprogram) ▸ hdepth)

theorem outcome_process (hsource : task.Source folder text)
    (hwords : task.Words folder vocabulary) :
    task.Outcome folder (task.process folder vocabulary text) := by
  unfold process
  dsimp only
  refine .after _ ?_
  split
  next hmode =>
    have hyields : task.Yields folder (.tokens (tokens vocabulary text)) :=
      (yields_iff hsource hwords).2 (.tokens hmode)
    exact outcome_writeOut _ (fun _ => hyields) fun hdeep => absurd (depth_tokens _) hdeep
  next hmode => exact .after _ (outcome_parse (by rw [hmode]; nofun) hsource hwords)
  next hmode => exact .after _ (outcome_parse (by rw [hmode]; nofun) hsource hwords)

/-- **The outcome of every run.** -/
theorem outcome_run (task : Task) (folder : Folder) : task.Outcome folder (task.run folder) := by
  unfold run
  split
  next breach hbreach =>
    refine .quiet (fun hdone => ?_) (quiet_broken folder breach)
    obtain ⟨product, text, vocabulary, hsource, -⟩ := hdone.1
    exact absurd (hbreach.symm.trans (sourceText_eq_ok_iff.2 hsource)) nofun
  next text htext =>
    have hsource := sourceText_eq_ok_iff.1 htext
    split
    next hnone => exact outcome_process hsource (.standard hnone)
    next path hpath =>
      split
      next breach hload =>
        refine .quiet (fun hdone => ?_) (quiet_broken folder breach)
        obtain ⟨product, text, vocabulary, -, hwords, -⟩ := hdone.1
        obtain ⟨aliases, haliases⟩ := hwords.loaded hpath
        exact absurd (hload.symm.trans haliases) nofun
      next flaw hload =>
        refine .quiet (fun hdone => ?_) (quiet_refuse folder _)
        obtain ⟨product, text, vocabulary, -, hwords, -⟩ := hdone.1
        obtain ⟨aliases, haliases⟩ := hwords.loaded hpath
        exact absurd (Except.ok.inj (hload.symm.trans haliases)) nofun
      next aliases hload =>
        obtain ⟨bytes, hread, hload⟩ := loadAliases_eq_ok_iff.1 hload
        exact .after _ (outcome_process hsource (.merged hpath hread hload))

/-! ## Tokens whatever the syntax -/

/-- How a run ends that puts a text at its place. -/
theorem ending_emit (task : Task) (folder : Folder) (text other : String) :
    (task.emit folder text).ending = (task.emit folder other).ending := by
  rw [emit, emit]
  split
  next => rfl
  next path _ =>
    rcases hwrite : folder.write path text.toUTF8.toList with fault | after
    · rw [Folder.write_eq_error hwrite]
    · obtain ⟨after', hwrite'⟩ :=
        (Folder.opens_iff other.toUTF8.toList).1 ((Folder.opens_iff _).2 ⟨after, hwrite⟩)
      rw [hwrite']

/-- How a run for tokens ends once the source and the aliases are read. -/
theorem ending_process (hmode : task.mode = some .tokens) (vocabulary : Vocabulary)
    (text : String) :
    (task.process folder vocabulary text).ending = (task.emit folder "").ending := by
  have hdepth : (Product.tokens (tokens vocabulary text)).record.depth ≤ writingLimit :=
    depth_tokens _
  rw [process, hmode]
  dsimp only
  rw [after_ending, writeOut]
  exact (congrArg Report.ending (if_neg (Nat.not_lt_of_le hdepth))).trans
    (ending_emit task folder _ _)

/-- How a run for tokens ends, in terms that do not mention the source. -/
theorem ending_tokens (hmode : task.mode = some .tokens) (h : ∃ text, task.Source folder text) :
    (task.run folder).ending =
      match (givenPath task.aliases).map (loadAliases folder) with
      | none | some (.ok (.ok _)) => (task.emit folder "").ending
      | some (.error breach) => .broken breach
      | some (.ok (.error _)) => .status 1 := by
  obtain ⟨text, hsource⟩ := h
  rw [run, sourceText_eq_ok_iff.2 hsource]
  dsimp only
  cases givenPath task.aliases with
  | none => exact ending_process hmode _ _
  | some path =>
    rw [Option.map_some]
    dsimp only
    rcases loadAliases folder path with breach | flaw | aliases
    · rfl
    · rfl
    · exact ending_process hmode _ _

/-- **For tokens, sources that can be read make no difference** to how a run ends. -/
theorem ending_run (hmode : task.mode = some .tokens) {source : String} {isText : Bool}
    (h : ∃ text, task.Source folder text)
    (hother : ∃ text, Source { task with source, isText } folder text) :
    (run { task with source, isText } folder).ending = (task.run folder).ending :=
  (@ending_tokens { task with source, isText } folder hmode hother).trans
    (ending_tokens hmode h).symm

/-! ## The result -/

/-- **What a run puts out, and when.**

* It ends with the status 0 exactly if the task comes to something and the file to write to opens.
* Then the product's JSON and a newline are at one place: the output, or the file.
* Otherwise the status is 1 or the run is broken off, there is no output, and the folder is as it
  was.
* If tokens are asked for, it makes no difference to the ending what is in a source that can be
  read. -/
theorem run_emits (task : Task) (folder : Folder) :
    ((task.run folder).ending = .status 0 ↔
      (∃ product, task.Yields folder product) ∧ ∀ path ∈ task.outPath?, folder.Opens path) ∧
    ((task.run folder).ending = .status 0 → ∃ product, task.Yields folder product ∧
      task.Delivers folder (task.written product.record) (task.run folder)) ∧
    ((task.run folder).ending ≠ .status 0 →
      (task.run folder).output = "" ∧ (task.run folder).folder = folder ∧
        ∀ status, (task.run folder).ending = .status status → status = 1) ∧
    (task.mode = some .tokens → ∀ source isText, (∃ text, task.Source folder text) →
      (∃ text, Source { task with source, isText } folder text) →
        (run { task with source, isText } folder).ending = (task.run folder).ending) := by
  refine ⟨?_, ?_, ?_, fun hmode source isText => ending_run hmode⟩
  · cases outcome_run task folder with
    | written hyields hopens hending => exact ⟨fun _ => ⟨⟨_, hyields⟩, hopens⟩, fun _ => hending⟩
    | quiet h hquiet =>
      exact ⟨fun hending => absurd hending hquiet.ending, fun hall => absurd hall h⟩
  · intro hending
    cases outcome_run task folder with
    | written hyields _ _ hdelivers => exact ⟨_, hyields, hdelivers⟩
    | quiet _ hquiet => exact absurd hending hquiet.ending
  · intro hending
    cases outcome_run task folder with
    | written _ _ hzero => exact absurd hzero hending
    | quiet _ hquiet => exact ⟨hquiet.output, hquiet.folder, hquiet.status⟩

/-- A task for the tokens of a number, which are no program. -/
def numberTask : Task := { source := "42", isText := true, mode := some .tokens }

/-- The task comes to something, and does so with another text for its source. -/
theorem run_emits_numberTask :
    (∃ product, numberTask.Yields ⟨[], []⟩ product ∧
      numberTask.Delivers ⟨[], []⟩ (numberTask.written product.record) (numberTask.run ⟨[], []⟩)) ∧
    (run { numberTask with source := "Break" } ⟨[], []⟩).ending = .status 0 := by
  have hending : (numberTask.run ⟨[], []⟩).ending = .status 0 := by cbv
  obtain ⟨-, hdelivers, -, hsame⟩ := run_emits numberTask ⟨[], []⟩
  exact ⟨hdelivers hending,
    (hsame rfl "Break" true ⟨_, .given rfl⟩ ⟨_, .given rfl⟩).trans hending⟩

end Task

end ScriptFrontend
