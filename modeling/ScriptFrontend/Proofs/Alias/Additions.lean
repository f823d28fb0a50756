import Mathlib
import ScriptFrontend.Proofs.Alias.Group
import ScriptFrontend.Proofs.Json.Shown

/-!
# Proofs/Alias/Additions — what a configuration comes to

A configuration gives aliases one after the other, each with the reserved word it is to stand for:
its **occurrences**.  Its draft is a fold over them (`Draft.give`), and what the draft holds at the
end can be read off the occurrences alone.  The kind that an alias has to keep is the one it is
known by, or has in the language, or is first given (`established_foldl`); the conflicts are the
occurrences of another kind, in order (`conflicts_foldl`).

So a configuration is accepted within a limit exactly if its groups are, all its targets are kinds
of reserved words, all its aliases are words, and no occurrence conflicts
(`additionsWithin_eq_ok_iff`).  Where nothing in it is beyond the limit it is otherwise refused for
a flaw (`exists_flaw_of_refused`).
-/

namespace ScriptFrontend

/-- The aliases that an entry gives, each with the reserved word.  An entry whose target is none
gives nothing. -/
def occurrencesIn (entry : Json × Target) : List (String × Keyword) :=
  match entry.2.meant? with
  | some kind => (wordsIn entry.1).map (·, kind)
  | none => []

/-- The aliases that a configuration gives, in order, each with its reserved word. -/
def Configuration.occurrences (configuration : Configuration) : List (String × Keyword) :=
  configuration.flatMap occurrencesIn

theorem mem_occurrencesIn {entry : Json × Target} {word : String} {kind : Keyword} :
    (word, kind) ∈ occurrencesIn entry ↔
      entry.2.meant? = some kind ∧ word ∈ wordsIn entry.1 := by
  unfold occurrencesIn
  cases entry.2.meant? with
  | some other =>
    simp only [List.mem_map, Prod.mk.injEq, Option.some.injEq]
    constructor
    · rintro ⟨_, hmem, rfl, rfl⟩
      exact ⟨rfl, hmem⟩
    · rintro ⟨rfl, hmem⟩
      exact ⟨word, hmem, rfl, rfl⟩
  | none => simp

theorem Configuration.mem_occurrences {configuration : Configuration} {word : String}
    {kind : Keyword} :
    (word, kind) ∈ configuration.occurrences ↔
      ∃ entry ∈ configuration, entry.2.meant? = some kind ∧ word ∈ wordsIn entry.1 := by
  simp only [occurrences, List.mem_flatMap, mem_occurrencesIn]

/-- Whether an entry has the kind of a reserved word for its target, and only words for aliases. -/
def Admissible (entry : Json × Target) : Prop :=
  (∃ kind, entry.2.meant? = some kind) ∧ ∀ word ∈ wordsIn entry.1, isWord word = true

/-- **The groups of a configuration are within a limit.** -/
def Configuration.Within (limit : Nat) (configuration : Configuration) : Prop :=
  ∀ entry ∈ configuration, groupDepth entry.1 ≤ limit

namespace Aliases

variable {limit : Nat} {known : Aliases} {draft : Draft}

/-! ## Known aliases -/

@[simp] theorem kind?_empty (word : String) : empty.kind? word = none := rfl

/-- The first entry of a word counts. -/
theorem lookup_cons_eq {α : Type} (entry : String × α) (entries : List (String × α))
    (word : String) :
    (entry :: entries).lookup word =
      (if word = entry.1 then some entry.2 else none).or (entries.lookup word) := by
  by_cases hword : word = entry.1
  · subst hword
    simp [List.lookup]
  · have hne : (word == entry.1) = false := beq_eq_false_iff_ne.2 hword
    simp [List.lookup, hne, hword]

/-- An alias that is added leaves the other ones as they are, and itself if it is known. -/
theorem kind?_add (aliases : Aliases) (word : String) (kind : Keyword) (other : String) :
    (aliases.add word kind).kind? other =
      (aliases.kind? other).or (if other = word then some kind else none) := by
  by_cases hknown : (aliases.kind? word).isSome
  · rw [add, if_pos hknown]
    by_cases hother : other = word
    · obtain ⟨old, hold⟩ := Option.isSome_iff_exists.1 hknown
      simp [hother, hold]
    · simp [hother]
  · rw [add, if_neg hknown, kind?, List.lookup_append, lookup_cons_eq, List.lookup_nil,
      Option.or_none]
    rfl

/-- What is known stays so when further aliases are added. -/
theorem kind?_union (known fresh : Aliases) (word : String) :
    (known.union fresh).kind? word = (known.kind? word).or (fresh.kind? word) := by
  obtain ⟨entries⟩ := fresh
  simp only [union]
  induction entries generalizing known with
  | nil => exact (Option.or_none).symm
  | cons entry entries ih =>
    rw [List.foldl_cons, ih, kind?_add, Option.or_assoc]
    exact congrArg _ (lookup_cons_eq entry entries word).symm

/-! ## Drafts -/

/-- The kind that an alias has before a configuration: as a known alias, or in the language. -/
def base (known : Aliases) (word : String) : Option Keyword :=
  (known.kind? word).or (standardWords.lookup word)

theorem established_eq (known : Aliases) (draft : Draft) (word : String) :
    established known draft word = (draft.fresh.kind? word).or (base known word) := rfl

/-- A draft with one more occurrence. -/
def Draft.give (known : Aliases) (draft : Draft) (occurrence : String × Keyword) : Draft :=
  match established known draft occurrence.1 with
  | some other =>
    if other = occurrence.2 then { draft with fresh := draft.fresh.add occurrence.1 occurrence.2 }
    else { draft with conflicts := ⟨occurrence.1, other, occurrence.2⟩ :: draft.conflicts }
  | none => { draft with fresh := draft.fresh.add occurrence.1 occurrence.2 }

theorem giving_eq (known : Aliases) (kind : Keyword) (draft : Draft) (word : String) :
    Draft.giving known kind draft word =
      if isWord word then .ok (draft.give known (word, kind))
      else .error (.flaw (.notWord word)) := by
  unfold Draft.giving Draft.give
  cases established known draft word with
  | none => rfl
  | some other =>
    by_cases hkind : other = kind
    · simp [hkind]
    · simp [hkind]

/-- A fold that can stop goes through exactly if each step can be taken. -/
theorem foldlM_eq_ok_iff {α σ ε : Type} {step : σ → α → Except ε σ} {next : σ → α → σ}
    {passes : α → Prop} (h : ∀ s a t, step s a = .ok t ↔ passes a ∧ next s a = t) :
    ∀ (list : List α) (s t : σ),
      list.foldlM step s = .ok t ↔ (∀ a ∈ list, passes a) ∧ list.foldl next s = t
  | [], s, t => by simp [pure, Except.pure]
  | a :: list, s, t => by
    rw [List.foldlM_cons, List.foldl_cons, List.forall_mem_cons]
    cases hstep : step s a with
    | ok u =>
      obtain ⟨hpass, rfl⟩ := (h s a u).1 hstep
      simp only [bind, Except.bind, foldlM_eq_ok_iff h list, hpass, true_and]
    | error e =>
      have hfail : ¬ passes a := fun hpass => by simp [(h s a _).2 ⟨hpass, rfl⟩] at hstep
      simp [bind, Except.bind, hfail]

theorem entering_eq_ok_iff (draft : Draft) (entry : Json × Target) (next : Draft) :
    Draft.entering limit known draft entry = .ok next ↔
      (Admissible entry ∧ groupDepth entry.1 ≤ limit) ∧
        (occurrencesIn entry).foldl (Draft.give known) draft = next := by
  have hwords (kind : Keyword) (words : List String) :
      words.foldlM (Draft.giving known kind) draft = .ok next ↔
        (∀ word ∈ words, isWord word = true) ∧
          words.foldl (fun draft word => draft.give known (word, kind)) draft = next := by
    refine foldlM_eq_ok_iff (fun draft word next => ?_) words draft next
    rw [giving_eq]
    split <;> simp_all
  rw [Draft.entering, Admissible, occurrencesIn, aliasesIn_eq]
  cases hresult : entry.2.resolve limit with
  | ok kind =>
    rw [resolve_eq_ok_iff_meant.1 hresult]
    by_cases hdepth : groupDepth entry.1 ≤ limit
    · simp [hdepth, hwords, List.foldl_map]
    · simp [hdepth]
  | error refusal =>
    have hnone (kind : Keyword) : entry.2.meant? ≠ some kind := fun hkind => by
      simp [resolve_eq_ok_iff_meant.2 hkind] at hresult
    simp [hnone]

/-- All entries of a configuration. -/
theorem entries_eq_ok_iff {configuration : Configuration} {next : Draft} :
    configuration.foldlM (Draft.entering limit known) draft = .ok next ↔
      ((∀ entry ∈ configuration, Admissible entry) ∧ configuration.Within limit) ∧
        configuration.occurrences.foldl (Draft.give known) draft = next := by
  rw [foldlM_eq_ok_iff entering_eq_ok_iff, Configuration.occurrences, List.foldl_flatMap,
    Configuration.Within, forall₂_and]

/-! ## Established kinds -/

section Give

variable {word : String} {kind : Keyword}

/-- An occurrence of the established kind, or of an alias without one. -/
theorem give_of_agrees (h : ∀ old ∈ established known draft word, old = kind) :
    draft.give known (word, kind) = { draft with fresh := draft.fresh.add word kind } := by
  unfold Draft.give
  split
  next old hold => rw [if_pos (h old hold)]
  next => rfl

/-- An occurrence of another kind than the established one. -/
theorem give_of_conflict {old : Keyword} (hold : established known draft word = some old)
    (hne : old ≠ kind) :
    draft.give known (word, kind) =
      { draft with conflicts := ⟨word, old, kind⟩ :: draft.conflicts } := by
  unfold Draft.give
  rw [hold]
  exact if_neg hne

theorem give_cases (known : Aliases) (draft : Draft) (word : String) (kind : Keyword) :
    (∀ old ∈ established known draft word, old = kind) ∨
      ∃ old, established known draft word = some old ∧ old ≠ kind := by
  by_cases h : ∀ old ∈ established known draft word, old = kind
  · exact .inl h
  · simp only [Classical.not_forall] at h
    obtain ⟨old, hold, hne⟩ := h
    exact .inr ⟨old, hold, hne⟩

end Give

/-- An occurrence establishes its kind unless there is one already. -/
theorem established_give (known : Aliases) (draft : Draft) (occurrence : String × Keyword)
    (word : String) :
    established known (draft.give known occurrence) word =
      (established known draft word).or
        (if word = occurrence.1 then some occurrence.2 else none) := by
  obtain ⟨other, kind⟩ := occurrence
  rcases give_cases known draft other kind with hagrees | ⟨old, hold, hne⟩
  · rw [give_of_agrees hagrees]
    simp only [established_eq, kind?_add] at hagrees ⊢
    by_cases hword : word = other
    · subst hword
      cases hfresh : draft.fresh.kind? word with
      | some old => simp
      | none =>
        cases hbase : base known word with
        | none => simp
        | some older =>
          have heq : older = kind := hagrees older (by rw [hfresh, hbase]; rfl)
          simp [heq]
    · simp [hword]
  · rw [give_of_conflict hold hne]
    by_cases hword : word = other
    · subst hword
      rw [hold]
      exact hold
    · rw [if_neg hword, Option.or_none]
      rfl

/-- **The kind that an alias has to keep**: its kind before the configuration, or the one that it is
first given. -/
theorem established_foldl (known : Aliases) (word : String) :
    ∀ (occurrences : List (String × Keyword)) (draft : Draft),
      established known (occurrences.foldl (Draft.give known) draft) word =
        (established known draft word).or (occurrences.lookup word)
  | [], draft => (Option.or_none).symm
  | occurrence :: occurrences, draft => by
    rw [List.foldl_cons, established_foldl known word occurrences, established_give,
      Option.or_assoc, ← lookup_cons_eq]

/-! ## Conflicts -/

/-- The conflict of an occurrence, given the kinds that aliases have to keep. -/
def conflict? (kept : String → Option Keyword) (occurrence : String × Keyword) : Option Conflict :=
  match kept occurrence.1 with
  | some old => if old = occurrence.2 then none else some ⟨occurrence.1, old, occurrence.2⟩
  | none => none

theorem conflict?_eq_none_iff {kept : String → Option Keyword} {word : String} {kind : Keyword} :
    conflict? kept (word, kind) = none ↔ ∀ old ∈ kept word, old = kind := by
  unfold conflict?
  cases kept word with
  | none => simp
  | some old => simp

/-- An occurrence that conflicts adds its conflict, and no other one does. -/
theorem conflicts_give (known : Aliases) (draft : Draft) (occurrence : String × Keyword)
    (kept : String → Option Keyword)
    (hkept : kept occurrence.1 =
      (established known draft occurrence.1).or (some occurrence.2)) :
    (draft.give known occurrence).conflicts =
      (conflict? kept occurrence).toList ++ draft.conflicts := by
  obtain ⟨word, kind⟩ := occurrence
  rcases give_cases known draft word kind with hagrees | ⟨old, hold, hne⟩
  · have hnone : conflict? kept (word, kind) = none := conflict?_eq_none_iff.2 fun old hold => by
      rw [hkept] at hold
      cases hnow : established known draft word with
      | none => simpa [hnow, eq_comm] using hold
      | some other => exact hagrees old (by simpa [hnow] using hold)
    rw [give_of_agrees hagrees, hnone]
    rfl
  · have hsome : conflict? kept (word, kind) = some ⟨word, old, kind⟩ := by
      simp [conflict?, hkept, hold, hne]
    rw [give_of_conflict hold hne, hsome]
    rfl

/-- **The conflicts of occurrences** are those of the ones that have another kind than the alias has
to keep, in order. -/
theorem conflicts_foldl (known : Aliases) :
    ∀ (occurrences : List (String × Keyword)) (draft : Draft),
      (occurrences.foldl (Draft.give known) draft).conflicts =
        (occurrences.filterMap (conflict? fun word =>
          (established known draft word).or (occurrences.lookup word))).reverse ++ draft.conflicts
  | [], draft => rfl
  | occurrence :: occurrences, draft => by
    have hkept : (fun word => (established known (draft.give known occurrence) word).or
          (occurrences.lookup word)) =
        fun word =>
          (established known draft word).or ((occurrence :: occurrences).lookup word) := by
      funext word
      rw [established_give, Option.or_assoc, ← lookup_cons_eq]
    have hfirst := conflicts_give known draft occurrence
      (fun word => (established known draft word).or ((occurrence :: occurrences).lookup word))
      (by simp [lookup_cons_eq])
    rw [List.foldl_cons, conflicts_foldl known occurrences, hkept, hfirst, List.filterMap_cons]
    cases conflict? _ occurrence with
    | none => rfl
    | some conflict => simp

/-! ## Acceptance -/

/-- The draft of some occurrences. -/
def draftOf (known : Aliases) (occurrences : List (String × Keyword)) : Draft :=
  occurrences.foldl (Draft.give known) {}

/-- No alias among some occurrences is given a kind other than the one it has to keep. -/
structure Consistent (known : Aliases) (occurrences : List (String × Keyword)) : Prop where
  /-- It is given one kind only. -/
  together : ∀ word kind other, (word, kind) ∈ occurrences → (word, other) ∈ occurrences →
    other = kind
  /-- That is the kind that it has had before, if it has had one. -/
  before : ∀ word kind, (word, kind) ∈ occurrences → ∀ old ∈ base known word, old = kind

theorem lookup_of_mem {occurrences : List (String × Keyword)} {word : String} {kind : Keyword}
    (h : (word, kind) ∈ occurrences) :
    ∃ first, occurrences.lookup word = some first ∧ (word, first) ∈ occurrences := by
  induction occurrences with
  | nil => simp at h
  | cons occurrence occurrences ih =>
    by_cases hword : word = occurrence.1
    · refine ⟨occurrence.2, by simp [lookup_cons_eq, hword], ?_⟩
      rw [hword]
      exact List.mem_cons_self
    · have hmem : (word, kind) ∈ occurrences := by
        rcases List.mem_cons.1 h with rfl | hmem
        · exact absurd rfl hword
        · exact hmem
      obtain ⟨first, hlookup, hfirst⟩ := ih hmem
      exact ⟨first, by simp [lookup_cons_eq, hword, hlookup], List.mem_cons_of_mem _ hfirst⟩

/-- A draft is free of conflicts exactly if its occurrences are consistent. -/
theorem conflicts_draftOf_eq_nil_iff {occurrences : List (String × Keyword)} :
    (draftOf known occurrences).conflicts = [] ↔ Consistent known occurrences := by
  rw [draftOf, conflicts_foldl]
  have hnone : (occurrences.filterMap (conflict? fun word =>
        (established known {} word).or (occurrences.lookup word))).reverse ++ [] = [] ↔
      ∀ word kind, (word, kind) ∈ occurrences →
        ∀ old ∈ (base known word).or (occurrences.lookup word), old = kind := by
    simp only [List.append_nil, List.reverse_eq_nil_iff, List.filterMap_eq_nil_iff, Prod.forall]
    exact forall₂_congr fun word kind => imp_congr_right fun _ => conflict?_eq_none_iff
  refine hnone.trans ⟨fun h => ⟨fun word kind other hkind hother => ?_,
    fun word kind hkind old hold => ?_⟩, fun h word kind hkind old hold => ?_⟩
  · obtain ⟨first, hlookup, -⟩ := lookup_of_mem hkind
    have hkept : ∃ old, old ∈ (base known word).or (occurrences.lookup word) := by
      rw [hlookup]
      cases base known word <;> simp
    obtain ⟨old, hold⟩ := hkept
    exact (h word other hother old hold).symm.trans (h word kind hkind old hold)
  · exact h word kind hkind old (by rw [Option.mem_def.1 hold]; rfl)
  · cases hbase : base known word with
    | some older =>
      obtain rfl : older = old := by simpa [hbase] using hold
      exact h.before word kind hkind older hbase
    | none =>
      obtain ⟨first, hlookup, hfirst⟩ := lookup_of_mem hkind
      obtain rfl : first = old := by simpa [hbase, hlookup] using hold
      exact h.together word kind first hkind hfirst

/-- **A configuration is accepted** exactly if its entries are admissible, its groups within the
limit, and its occurrences consistent; what it adds is its draft. -/
theorem additionsWithin_eq_ok_iff {configuration : Configuration} {fresh : Aliases} :
    known.additionsWithin limit configuration = .ok fresh ↔
      (∀ entry ∈ configuration, Admissible entry) ∧ configuration.Within limit ∧
        Consistent known configuration.occurrences ∧
        (draftOf known configuration.occurrences).fresh = fresh := by
  rw [← conflicts_draftOf_eq_nil_iff, additionsWithin]
  cases hdraft : configuration.foldlM (Draft.entering limit known) {} with
  | error refusal =>
    have hfail : ¬ ((∀ entry ∈ configuration, Admissible entry) ∧ configuration.Within limit) :=
      fun hall => by simp [entries_eq_ok_iff.2 ⟨hall, rfl⟩] at hdraft
    exact ⟨fun h => by simp at h, fun h => absurd ⟨h.1, h.2.1⟩ hfail⟩
  | ok draft =>
    obtain ⟨⟨hall, hwithin⟩, rfl⟩ := entries_eq_ok_iff.1 hdraft
    rw [← draftOf]
    cases hconflicts : (draftOf known configuration.occurrences).conflicts with
    | nil => simpa [hconflicts, hwithin] using fun _ => fun group target => hall (group, target)
    | cons conflict rest => simp [hconflicts]

/-! ## Limits -/

/-- A fold that stops does so at a step. -/
theorem exists_error_of_foldlM {α σ ε : Type} {step : σ → α → Except ε σ} {list : List α} {s : σ}
    {e : ε} (h : list.foldlM step s = .error e) : ∃ t, ∃ a ∈ list, step t a = .error e := by
  induction list generalizing s with
  | nil => cases h
  | cons a list ih =>
    rw [List.foldlM_cons] at h
    cases hstep : step s a with
    | error other =>
      rw [hstep] at h
      exact ⟨s, a, List.mem_cons_self, hstep.trans h⟩
    | ok next =>
      rw [hstep] at h
      obtain ⟨t, b, hmem, hb⟩ := ih h
      exact ⟨t, b, List.mem_cons_of_mem _ hmem, hb⟩

/-- **A target whose value can be shown** is refused for a flaw. -/
theorem exists_flaw_of_resolve {target : Target} {refusal : Refusal}
    (hshown : ∀ value, target = .value value → Json.Showable limit value)
    (h : target.resolve limit = .error refusal) : ∃ flaw, refusal = .flaw flaw := by
  have hunknown {value : Json} (heq : target = .value value) :
      ∃ flaw, Refusal.ofUnknown limit value = .flaw flaw := by
    obtain ⟨text, htext⟩ := Json.bare_of_showable (hshown value heq)
    exact ⟨.unknownKind text, by rw [Refusal.ofUnknown, htext]⟩
  have hkind : ∀ refusal, target.kind? limit = .error refusal → ∃ flaw, refusal = .flaw flaw := by
    intro refusal h
    cases target with
    | kind kind => cases h
    | value value =>
      cases value with
      | string name =>
        rw [Target.kind?] at h
        split at h
        · cases h
        · obtain rfl := Except.error.inj h
          exact hunknown rfl
      | _ =>
        obtain rfl := Except.error.inj h
        exact hunknown rfl
  rw [Target.resolve] at h
  split at h
  · cases h
  · obtain rfl := Except.error.inj h
    exact ⟨_, rfl⟩
  · next heq =>
    obtain rfl := Except.error.inj h
    exact hkind _ heq

/-- An entry is refused for its target, for its group, or for one of its aliases. -/
theorem entering_eq_error {entry : Json × Target} {refusal : Refusal}
    (h : Draft.entering limit known draft entry = .error refusal) :
    entry.2.resolve limit = .error refusal ∨
      (limit < groupDepth entry.1 ∧ refusal = .tooDeep) ∨
        ∃ word ∈ wordsIn entry.1, ¬ isWord word = true ∧ refusal = .flaw (.notWord word) := by
  rw [Draft.entering, aliasesIn_eq] at h
  cases hresult : entry.2.resolve limit with
  | error other =>
    simp only [hresult, Except.error.injEq] at h
    exact .inl (congrArg _ h)
  | ok kind =>
    simp only [hresult] at h
    by_cases hdepth : groupDepth entry.1 ≤ limit
    · rw [if_pos hdepth] at h
      obtain ⟨_, word, hmem, hword⟩ := exists_error_of_foldlM h
      rw [giving_eq] at hword
      split at hword
      · cases hword
      next hnot => exact .inr (.inr ⟨word, hmem, hnot, (Except.error.inj hword).symm⟩)
    · rw [if_neg hdepth] at h
      exact .inr (.inl ⟨Nat.lt_of_not_le hdepth, (Except.error.inj h).symm⟩)

/-- A configuration is refused for one of its entries, or else for collisions. -/
theorem additionsWithin_eq_error {configuration : Configuration} {refusal : Refusal}
    (h : known.additionsWithin limit configuration = .error refusal) :
    (∃ draft, ∃ entry ∈ configuration, Draft.entering limit known draft entry = .error refusal) ∨
      configuration.Within limit ∧ ∃ conflicts, refusal = .flaw (.collisions conflicts) := by
  rw [additionsWithin] at h
  cases hentries : configuration.foldlM (Draft.entering limit known) {} with
  | error other =>
    rw [hentries] at h
    obtain rfl := Except.error.inj h
    exact .inl (exists_error_of_foldlM hentries)
  | ok draft =>
    obtain ⟨⟨-, hwithin⟩, -⟩ := entries_eq_ok_iff.1 hentries
    simp only [hentries] at h
    split at h
    · cases h
    · exact .inr ⟨hwithin, _, (Except.error.inj h).symm⟩

/-- **A configuration that is within the limit** in its groups and in the values of its targets is
refused for a flaw, if at all. -/
theorem exists_flaw_of_refused {configuration : Configuration} {refusal : Refusal}
    (hwithin : configuration.Within limit)
    (hshown : ∀ entry ∈ configuration, ∀ value, entry.2 = .value value →
      Json.Showable limit value)
    (h : known.additionsWithin limit configuration = .error refusal) :
    ∃ flaw, refusal = .flaw flaw := by
  rcases additionsWithin_eq_error h with ⟨_, entry, hmem, hentry⟩ | ⟨-, conflicts, rfl⟩
  · rcases entering_eq_error hentry with hresolve | ⟨hdeep, -⟩ | ⟨word, -, -, rfl⟩
    · exact exists_flaw_of_resolve (hshown entry hmem) hresolve
    · exact absurd (hwithin entry hmem) (Nat.not_le_of_lt hdeep)
    · exact ⟨_, rfl⟩
  · exact ⟨_, rfl⟩

end Aliases

end ScriptFrontend
