import ScriptFrontend.Alias.Report
import ScriptFrontend.Proofs.Alias.Word
import ScriptFrontend.Proofs.Text.Split
import ScriptFrontend.Proofs.Tree.Record

/-!
# Proofs/Alias/Report — the report says what is known, and nothing else

The report lists the aliases line by line.  Each line can be read back (`readLine?_reportLine`),
since an alias is a single word and so ends where the blank in front of the arrow is, however wide
its column.  No line has a newline in it, so the lines are found again in the report and the whole
list with them (`readReport?_report`):

    entries  —sorted→  listed  —report→  text  —readReport?→  listed

What is listed does not depend on the order in which the aliases became known, since every alias is
known once and so only one order has them growing (`sorted_eq_of_kind?`).  That makes the report a
normal form of the aliases as a mapping (`report_canonical`).
-/

namespace ScriptFrontend.Aliases

variable {aliases : Aliases} {word : String} {kind : Keyword}

/-! ## Reading a report -/

/-- **A line of a report, read**: blanks, a word up to the next blank, an arrow, and the name of the
kind of a reserved word. -/
def readLine? (line : String) : Option (String × Keyword) :=
  match (line.toList.dropWhile (· == ' ')).span (· != ' ') with
  | (word, ' ' :: '-' :: '>' :: ' ' :: name) =>
    match Kind.ofName? (String.ofList name) with
    | some (.keyword kind) => some (String.ofList word, kind)
    | _ => none
  | _ => none

/-- The lines of a report.  An empty one has none. -/
def reportLines (report : String) : List String :=
  if report = "" then [] else splitAround '\n' report

/-- **A report, read line by line.** -/
def readReport? (report : String) : Option (List (String × Keyword)) :=
  (reportLines report).mapM readLine?

/-! ## Lines -/

/-- What stands behind an alias in its line. -/
def arrowTo (kind : Keyword) : List Char := ' ' :: '-' :: '>' :: ' ' :: kind.name.toList

/-- **A line** is blanks, the alias, and what stands behind it. -/
theorem toList_reportLine (word : String) (kind : Keyword) :
    (reportLine (word, kind)).toList =
      List.replicate (columnWidth - word.length) ' ' ++ (word.toList ++ arrowTo kind) := by
  simp [reportLine, rightAligned, arrowTo]

/-- **A line is read back**, also where the alias is wider than its column. -/
theorem readLine?_reportLine (hword : SingleWord word) (kind : Keyword) :
    readLine? (reportLine (word, kind)) = some (word, kind) := by
  have hname : Kind.ofName? kind.name = some (.keyword kind) := Kind.ofName?_name (.keyword kind)
  have hplain : ∀ c ∈ word.toList, (c != ' ') = true := by
    intro c hc
    rw [bne_iff_ne]
    rintro rfl
    exact hword.not_mem (by decide) hc
  have hfirst : ∀ c ∈ (word.toList ++ arrowTo kind).head?, (c == ' ') = false := by
    obtain ⟨first, body, htext, -⟩ := hword
    rw [htext] at hplain ⊢
    simpa using hplain first List.mem_cons_self
  have hcolumn : ∀ c ∈ List.replicate (columnWidth - word.length) ' ', (c == ' ') = true := by simp
  have hbehind := (Stream.takeWhile_run hcolumn hfirst).2
  have harrow : ∀ c ∈ (arrowTo kind).head?, (c != ' ') = false := by simp [arrowTo]
  obtain ⟨htake, hdrop⟩ := Stream.takeWhile_run hplain harrow
  rw [readLine?, toList_reportLine, hbehind, List.span_eq_takeWhile_dropWhile, htake, hdrop,
    arrowTo]
  simp [hname]

/-- An alias that is wider than its column, and one that is not. -/
example : readLine? (reportLine ("Hauptprogramm", .start)) = some ("Hauptprogramm", .start) ∧
    reportLine ("si", .ifWord) = "          si -> IF" := by cbv

/-- **A line stays a line.** -/
theorem newline_not_mem_reportLine (hword : SingleWord word) (kind : Keyword) :
    '\n' ∉ (reportLine (word, kind)).toList := by
  have hnames : ∀ kind ∈ Keyword.all, '\n' ∉ kind.name.toList := by decide +kernel
  have hnewline : '\n' ∉ word.toList := hword.not_mem (by decide)
  have harrow : '\n' ∉ arrowTo kind := by simp [arrowTo, hnames kind (Keyword.mem_all kind)]
  rw [toList_reportLine, List.mem_append, List.mem_append]
  rintro (hcolumn | hmem | hmem)
  · exact absurd (List.eq_of_mem_replicate hcolumn) (by decide)
  · exact hnewline hmem
  · exact harrow hmem

/-! ## The list -/

/-- The same aliases are listed as are known, in another order. -/
theorem perm_sorted (aliases : Aliases) : aliases.sorted.Perm aliases.entries :=
  List.mergeSort_perm _ _

/-- **The listed aliases grow**, since no alias is known twice. -/
theorem increasing_sorted (h : Sound aliases) : aliases.sorted.Pairwise fun a b => a.1 < b.1 := by
  have hweak : aliases.sorted.Pairwise fun a b => decide (a.1 ≤ b.1) = true := by
    refine List.pairwise_mergeSort (fun a b c hab hbc => ?_) (fun a b => ?_) aliases.entries
    · rw [decide_eq_true_eq] at hab hbc ⊢
      exact String.le_trans hab hbc
    · simpa using String.le_total a.1 b.1
  have honce : (aliases.sorted.map Prod.fst).Nodup :=
    ((aliases.perm_sorted.map Prod.fst).nodup_iff).2 h.once
  exact hweak.imp₂ (fun a b hab hne => lt_of_le_of_ne (of_decide_eq_true hab) hne)
    (List.pairwise_map.1 honce)

/-- **Every alias is listed with the kind it is known by**, and nothing else is. -/
theorem mem_sorted_iff (h : Sound aliases) :
    (word, kind) ∈ aliases.sorted ↔ aliases.kind? word = some kind := by
  rw [aliases.perm_sorted.mem_iff, kind?]
  constructor
  · intro hmem
    obtain ⟨first, hlookup, hfirst⟩ := lookup_of_mem hmem
    have hsame : (word, first) = (word, kind) := List.inj_on_of_nodup_map h.once hfirst hmem rfl
    rw [hlookup, (Prod.mk.inj hsame).2]
  · intro hlookup
    obtain ⟨front, back, heq, -⟩ := List.lookup_eq_some_iff.1 hlookup
    simp [heq]

theorem nodup_sorted (h : Sound aliases) : aliases.sorted.Nodup := by
  refine (increasing_sorted h).imp fun {a b} hab => ?_
  rintro rfl
  exact String.lt_irrefl a.1 hab

/-- **Aliases that say the same are listed the same**, whatever order they became known in. -/
theorem sorted_eq_of_kind? {one two : Aliases} (hone : Sound one) (htwo : Sound two)
    (h : ∀ word, one.kind? word = two.kind? word) : one.sorted = two.sorted := by
  have hperm : one.sorted.Perm two.sorted := by
    rw [List.perm_ext_iff_of_nodup (nodup_sorted hone) (nodup_sorted htwo)]
    rintro ⟨word, kind⟩
    rw [mem_sorted_iff hone, mem_sorted_iff htwo, h]
  refine hperm.eq_of_pairwise (fun a b _ _ hab hba => ?_) (increasing_sorted hone)
    (increasing_sorted htwo)
  exact absurd (lt_trans hab hba) (String.lt_irrefl a.1)

/-! ## The report -/

theorem words_sorted (h : Sound aliases) : ∀ entry ∈ aliases.sorted, SingleWord entry.1 :=
  fun entry hmem => h.words entry (aliases.perm_sorted.mem_iff.1 hmem)

/-- Where something is listed, the parts of the report between newlines are the lines. -/
theorem splitAround_report (h : Sound aliases) (hne : aliases.sorted ≠ []) :
    splitAround '\n' aliases.report = aliases.sorted.map reportLine := by
  refine splitAround_intercalate (by simpa using hne) fun line hline => ?_
  obtain ⟨entry, hentry, rfl⟩ := List.mem_map.1 hline
  exact newline_not_mem_reportLine (words_sorted h entry hentry) entry.2

/-- **The report is empty** exactly if nothing is listed, since no line is. -/
theorem report_eq_empty_iff (h : Sound aliases) : aliases.report = "" ↔ aliases.sorted = [] := by
  constructor
  · intro hempty
    by_contra hne
    have hlines := splitAround_report h hne
    obtain ⟨entry, rest, hsorted⟩ := List.exists_cons_of_ne_nil hne
    have hline : "" = reportLine entry := by
      rw [hempty, hsorted, List.map_cons] at hlines
      exact (List.cons.inj hlines).1
    simpa [arrowTo] using (congrArg String.toList hline).trans (toList_reportLine entry.1 entry.2)
  · intro hnil
    rw [report, hnil]
    rfl

/-- **The lines of the report** are those of the listed aliases. -/
theorem reportLines_report (h : Sound aliases) :
    reportLines aliases.report = aliases.sorted.map reportLine := by
  rw [reportLines]
  by_cases hnil : aliases.sorted = []
  · rw [if_pos ((report_eq_empty_iff h).2 hnil), hnil]
    rfl
  · rw [if_neg (mt (report_eq_empty_iff h).1 hnil), splitAround_report h hnil]

/-- The lines of aliases are read back one by one. -/
theorem mapM_readLine? {listed : List (String × Keyword)}
    (h : ∀ entry ∈ listed, SingleWord entry.1) :
    (listed.map reportLine).mapM readLine? = some listed := by
  induction listed with
  | nil => rfl
  | cons entry listed ih =>
    obtain ⟨hentry, hlisted⟩ := List.forall_mem_cons.1 h
    rw [List.map_cons, List.mapM_cons, readLine?_reportLine hentry, ih hlisted]
    rfl

/-- **The report is read back** as the listed aliases. -/
theorem readReport?_report (h : Sound aliases) :
    readReport? aliases.report = some aliases.sorted := by
  rw [readReport?, reportLines_report h, mapM_readLine? (words_sorted h)]

/-- **A list of aliases that a report shows.** -/
structure Shows (report : String) (aliases : Aliases) (listed : List (String × Keyword)) :
    Prop where
  /-- Every alias is listed with the kind it is known by, and nothing else is. -/
  known : ∀ word kind, (word, kind) ∈ listed ↔ aliases.kind? word = some kind
  /-- The aliases grow in the order of their characters, so each is listed once. -/
  increasing : listed.Pairwise fun a b => a.1 < b.1
  /-- Each has its own line. -/
  lines : reportLines report = listed.map reportLine
  /-- The lines can be read back. -/
  read : readReport? report = some listed

theorem shows_report (h : Sound aliases) : Shows aliases.report aliases aliases.sorted where
  known _ _ := mem_sorted_iff h
  increasing := increasing_sorted h
  lines := reportLines_report h
  read := readReport?_report h

/-- **The report is canonical and faithful.**  After any requests it shows all aliases that are
known, and it is empty exactly if there are none.  So two reports are equal exactly if the same
aliases are known by the same kinds, in whatever order and by whatever requests they came to be. -/
theorem report_canonical :
    (∀ one two : List Request, (history one).report = (history two).report ↔
      ∀ word, (history one).kind? word = (history two).kind? word) ∧
    ∀ requests : List Request,
      Shows (history requests).report (history requests) (history requests).sorted ∧
      ((history requests).report = "" ↔ ∀ word, (history requests).kind? word = none) := by
  refine ⟨fun one two => ⟨fun hreport word => ?_, fun hknown => ?_⟩, fun requests => ?_⟩
  · have hone := shows_report (sound_history one)
    have htwo := shows_report (sound_history two)
    have hsorted : (history one).sorted = (history two).sorted :=
      Option.some.inj (hone.read.symm.trans (hreport ▸ htwo.read))
    refine Option.ext fun kind => ?_
    rw [← hone.known, ← htwo.known, hsorted]
  · rw [report, report, sorted_eq_of_kind? (sound_history one) (sound_history two) hknown]
  · have hshows := shows_report (sound_history requests)
    refine ⟨hshows, ?_⟩
    rw [report_eq_empty_iff (sound_history requests), List.eq_nil_iff_forall_not_mem]
    simp only [Prod.forall, hshows.known, Option.eq_none_iff_forall_ne_some, ne_eq]

end ScriptFrontend.Aliases
