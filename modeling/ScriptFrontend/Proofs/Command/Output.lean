import ScriptFrontend.Proofs.Command.Run
import ScriptFrontend.Proofs.Json.Written
import ScriptFrontend.Proofs.Tree.Same

/-!
# Proofs/Command/Output — what is written says what was found

The text that a run writes is JSON in ASCII, and what it holds is the record of the product: of the
list of tokens, or of the tree (`Task.run_faithful`).  The record does not depend on where and how
it is written, and different products have different ones (`Product.record_injective`), so two texts
written in one layout are equal exactly if the products are.
-/

namespace ScriptFrontend

namespace Product

theorem plain_record (product : Product) : Json.Plain product.record := by
  cases product with
  | tokens list =>
    refine .array fun item hitem => ?_
    obtain ⟨token, -, rfl⟩ := List.mem_map.1 hitem
    exact token.plain_record
  | tree program => exact program.plain_record

/-- **Different products have different records.** -/
theorem record_injective {a b : Product} (h : a.record = b.record) : a = b := by
  cases a with
  | tokens list =>
    cases b with
    | tokens others =>
      have hrecords := (List.map_inj_right fun _ _ => Token.record_injective).1 (Json.array.inj h)
      exact congrArg tokens hrecords
    | tree program => exact absurd h.symm (Node.record_ne nofun)
  | tree program =>
    cases b with
    | tokens others => exact absurd h (Node.record_ne nofun)
    | tree other => exact congrArg tree (Node.record_injective h)

end Product

namespace Task

variable {task other : Task} {folder : Folder} {text : String} {product : Product}

/-- The layout of what a task writes. -/
def layout (task : Task) : Json.Layout := if task.pretty then .pretty else .compact

theorem blank_layout (task : Task) : task.layout.Blank := by
  rw [layout]
  split
  · exact Json.blank_pretty
  · exact Json.blank_compact

theorem written_eq (task : Task) (json : Json) :
    task.written json = Json.writeBehind task.layout 0 "" json ++ "\n" := by
  rw [written, layout]
  split <;> rfl

/-- **What is written is read as the record of the product.** -/
theorem readFully_written (task : Task) (product : Product) :
    Json.readFully (task.written product.record) = .ok product.record := by
  rw [written_eq]
  exact Json.readFully_written task.blank_layout product.plain_record

theorem ascii_written (task : Task) (product : Product) :
    Json.Ascii (task.written product.record).toList := by
  rw [written_eq, String.toList_append, Json.toList_writeBehind]
  have hvalue := Json.ascii_chars task.blank_layout product.plain_record 0
  have hend : Json.Ascii ['\n'] := Json.ascii_cons (by decide) Json.ascii_nil
  exact Json.ascii_append (Json.ascii_append Json.ascii_nil hvalue) hend

/-- Texts that are written in one layout are equal exactly if the products are. -/
theorem written_inj {product other : Product} (task : Task) :
    task.written other.record = task.written product.record ↔ other = product := by
  constructor
  · intro h
    have hread := readFully_written task other
    rw [h, readFully_written] at hread
    exact (Product.record_injective (Except.ok.inj hread)).symm
  · rintro rfl
    rfl

/-- A task comes to one thing. -/
theorem Yields.unique {other : Product} (h : task.Yields folder product)
    (hother : task.Yields folder other) : other = product := by
  obtain ⟨text, vocabulary, hsource, hwords, hmakes⟩ := h
  have hmakes' := (yields_iff hsource hwords).1 hother
  cases hmakes with
  | tokens hmode =>
    cases hmakes' with
    | tokens => rfl
    | tree hmode' => exact absurd hmode hmode'
  | tree hmode hparse =>
    cases hmakes' with
    | tokens hmode' => exact absurd hmode' hmode
    | tree _ hparse' => rw [Except.ok.inj (hparse'.symm.trans hparse)]

/-- What a task comes to depends on its source, its mode and its aliases. -/
theorem Yields.congr (hsource : other.source = task.source) (htext : other.isText = task.isText)
    (hmode : other.mode = task.mode) (haliases : other.aliases = task.aliases)
    (h : task.Yields folder product) : other.Yields folder product := by
  obtain ⟨text, vocabulary, hread, hwords, hmakes⟩ := h
  have hread' : other.Source folder text := by
    cases hread with
    | given hgiven => exact hsource ▸ .given (htext.trans hgiven)
    | file hfile hname hread =>
      exact .file (htext.trans hfile) (hsource.trans hname) (hsource ▸ hread)
  have hwords' : other.Words folder vocabulary := by
    cases hwords with
    | standard hnone => exact .standard (haliases ▸ hnone)
    | merged hsome hread hload => exact .merged (haliases ▸ hsome) hread hload
  exact ⟨text, vocabulary, hread', hwords', hmode ▸ hmakes⟩

/-- A report has one text at the place of a task. -/
theorem Delivers.unique {text' : String} {report : Report} (h : task.Delivers folder text report)
    (h' : task.Delivers folder text' report) : text' = text := by
  cases h with
  | output hout htext =>
    cases h' with
    | output _ htext' => exact htext'.symm.trans htext
    | file hout' => exact absurd (hout.symm.trans hout') nofun
  | file hout _ htext =>
    cases h' with
    | output hout' => exact absurd (hout.symm.trans hout') nofun
    | file hout' _ htext' =>
      obtain rfl := Option.some.inj (hout.symm.trans hout')
      have hbytes := Except.ok.inj (htext.symm.trans htext')
      have hread := Utf8.decode_eq_ok_iff.2 hbytes
      exact Except.ok.inj (hread.symm.trans (Utf8.decode_toUTF8 text))

/-- **What a successful run writes is faithful.**

* The text at its place is ASCII, and read as JSON it is the record of what the task comes to.
* With another layout, another place, or the aliases listed, what is written is read as the same
  record.
* Of any two successful runs in one layout, the texts are equal exactly if the lists of tokens, or
  the trees with their places, are.

All texts are sequences of Unicode scalar values: an escaped surrogate pair is one character and
never two. -/
theorem run_faithful (h : (task.run folder).ending = .status 0) :
    ∃ product text, task.Yields folder product ∧ task.Delivers folder text (task.run folder) ∧
      (∀ c ∈ text.toList, c.toNat < 0x80) ∧ Json.readFully text = .ok product.record ∧
      (∀ pretty out listAliases,
        (run { task with pretty, out, listAliases } folder).ending = .status 0 →
          ∃ text', Delivers { task with pretty, out, listAliases } folder text'
              (run { task with pretty, out, listAliases } folder) ∧
            Json.readFully text' = .ok product.record) ∧
      ∀ (other : Task) (place : Folder) (product' : Product) (text' : String),
        other.pretty = task.pretty → (other.run place).ending = .status 0 →
          other.Yields place product' → other.Delivers place text' (other.run place) →
            (text' = text ↔ product' = product) := by
  have hdelivers (task : Task) (folder : Folder) (h : (task.run folder).ending = .status 0) :=
    (run_emits task folder).2.1 h
  obtain ⟨product, hyields, hplace⟩ := hdelivers task folder h
  refine ⟨product, task.written product.record, hyields, hplace, ascii_written task product,
    readFully_written task product, fun pretty out listAliases hending => ?_,
    fun other place product' text' hpretty hending hyields' hplace' => ?_⟩
  · obtain ⟨product', hyields', hplace'⟩ := hdelivers _ folder hending
    have hsame : task.Yields folder product' :=
      @Yields.congr { task with pretty, out, listAliases } task _ _ rfl rfl rfl rfl hyields'
    obtain rfl := hyields.unique hsame
    exact ⟨_, hplace', readFully_written _ product'⟩
  · obtain ⟨product'', hyields'', hplace''⟩ := hdelivers other place hending
    obtain rfl := hyields''.unique hyields'
    obtain rfl := hplace''.unique hplace'
    have hlayout : other.written product'.record = task.written product'.record := by
      rw [written_eq, written_eq, layout, layout, hpretty]
    rw [hlayout, written_inj]

/-- A task that asks for the tree of one statement. -/
def breakTask : Task := { source := "Break;", isText := true, pretty := true }

theorem run_breakTask :
    (breakTask.run ⟨[], []⟩).ending = .status 0 ∧
      ∃ product, breakTask.Yields ⟨[], []⟩ product ∧
        Json.readFully (breakTask.run ⟨[], []⟩).output = .ok product.record := by
  have hending : (breakTask.run ⟨[], []⟩).ending = .status 0 := by cbv
  obtain ⟨product, text, hyields, hdelivers, -, hread, -⟩ := run_faithful hending
  cases hdelivers with
  | output _ htext => exact ⟨hending, product, hyields, htext ▸ hread⟩
  | file hout => exact absurd hout (Option.some_ne_none _).symm

end Task

end ScriptFrontend
