import ScriptFrontend.Proofs.Alias.Coherent

/-!
# Proofs/Alias/Refusal — why a configuration is refused

A configuration is gone through once (`Traversal`): entry by entry, and in an entry first its target
and then the aliases of its group from left to right (`Flattened`).

* Where a target means no kind of a reserved word, an alias is no single word, or a group is deeper
  than the limit, the first such fault is reported, whatever else is wrong (`First`, `EntryFails`).
* Otherwise every alias has one kind to keep (`keptKind`), and each occurrence with another kind is
  reported, in order (`Reports`).

The draft that is made on the way decides every occurrence by what the ones before it have left;
`conflicts_foldl` is what frees the second statement of it.
-/

namespace ScriptFrontend

/-! ## The first fault -/

/-- **The first member of a list that fails**, and how. -/
inductive First {α ε : Type} (fails : α → ε → Prop) : List α → ε → Prop where
  | here {a : α} {rest : List α} {e : ε} : fails a e → First fails (a :: rest) e
  | later {a : α} {rest : List α} {e : ε} :
    (∀ e, ¬ fails a e) → First fails rest e → First fails (a :: rest) e

theorem first_cons_iff {α ε : Type} {fails : α → ε → Prop} {a : α} {rest : List α} {e : ε} :
    First fails (a :: rest) e ↔ fails a e ∨ (∀ e, ¬ fails a e) ∧ First fails rest e := by
  constructor
  · rintro (hhere | ⟨hnone, hlater⟩)
    · exact .inl hhere
    · exact .inr ⟨hnone, hlater⟩
  · rintro (hhere | ⟨hnone, hlater⟩)
    · exact .here hhere
    · exact .later hnone hlater

/-- The first fault is that of a member. -/
theorem First.exists_fails {α ε : Type} {fails : α → ε → Prop} {list : List α} {e : ε}
    (h : First fails list e) : ∃ a, fails a e := by
  induction h with
  | here hfails => exact ⟨_, hfails⟩
  | later _ _ ih => exact ih

/-- **A fold that can stop** stops at the first step that cannot be taken. -/
theorem foldlM_eq_error_iff {α σ ε : Type} (step : σ → α → Except ε σ) {fails : α → ε → Prop}
    (h : ∀ s a e, step s a = .error e ↔ fails a e) {list : List α} {s : σ} {e : ε} :
    list.foldlM step s = .error e ↔ First fails list e := by
  induction list generalizing s with
  | nil => exact ⟨fun hnil => by simp [pure, Except.pure] at hnil, nofun⟩
  | cons a list ih =>
    rw [List.foldlM_cons, first_cons_iff]
    cases hstep : step s a with
    | error flaw =>
      have hfails : fails a flaw := (h s a flaw).1 hstep
      rw [← h s a e, hstep]
      exact ⟨.inl, fun hfirst => hfirst.elim id fun hlater => absurd hfails (hlater.1 flaw)⟩
    | ok next =>
      -- whether a member fails does not depend on the state, so this one fails in no state
      have hnone (flaw : ε) : ¬ fails a flaw := fun hfails => by
        simp [(h s a flaw).2 hfails] at hstep
      exact ih.trans
        ⟨fun hlater => .inr ⟨hnone, hlater⟩, fun hfirst => hfirst.elim (absurd · (hnone e)) (·.2)⟩

/-! ## Targets -/

/-- **A target fails** if it is, or names, a kind of no reserved word, or if it names no kind; a
value that names none is shown, if that is possible within the limit. -/
inductive Target.Fails (limit : Nat) : Target → Refusal → Prop where
  | kind {kind : Kind} :
    (∀ word, kind ≠ .keyword word) → Fails limit (.kind kind) (.flaw (.notReserved kind))
  | named {kind : Kind} :
    (∀ word, kind ≠ .keyword word) →
      Fails limit (.value (.string kind.name)) (.flaw (.notReserved kind))
  | unknown {value : Json} {text : String} :
    (∀ kind : Kind, value ≠ .string kind.name) → value.bare limit = .ok text →
      Fails limit (.value value) (.flaw (.unknownKind text))
  | unshown {value : Json} {cause : Json.Unshown} :
    (∀ kind : Kind, value ≠ .string kind.name) → value.bare limit = .error cause →
      Fails limit (.value value) (.unshown cause)

section

variable {limit : Nat}

theorem kind?_named (kind : Kind) :
    (Target.value (.string kind.name)).kind? limit = .ok kind := by
  simp only [Target.kind?, Kind.ofName?_name]

theorem kind?_unknown {value : Json} (h : ∀ kind : Kind, value ≠ .string kind.name) :
    (Target.value value).kind? limit = .error (.ofUnknown limit value) := by
  cases value with
  | string name =>
    cases hname : Kind.ofName? name with
    | some kind =>
      have heq : Json.string name = .string kind.name := by rw [Kind.ofName?_eq_some_iff.1 hname]
      exact absurd heq (h kind)
    | none => simp only [Target.kind?, hname]
  | _ => rfl

/-- A target of a kind fails exactly if that is the kind of no reserved word. -/
theorem resolve_eq_error_of_kind? {target : Target} {kind : Kind} {refusal : Refusal}
    (hkind : target.kind? limit = .ok kind) :
    target.resolve limit = .error refusal ↔
      (∀ word, kind ≠ .keyword word) ∧ refusal = .flaw (.notReserved kind) := by
  rw [Target.resolve, hkind]
  cases kind <;> simp [eq_comm]

/-- **Resolving a target stops where it fails.** -/
theorem resolve_eq_error_iff {target : Target} {refusal : Refusal} :
    target.resolve limit = .error refusal ↔ target.Fails limit refusal := by
  constructor
  · intro h
    cases target with
    | kind kind =>
      obtain ⟨hkind, rfl⟩ := (resolve_eq_error_of_kind? rfl).1 h
      exact .kind hkind
    | value value =>
      by_cases hnamed : ∃ kind : Kind, value = .string kind.name
      · obtain ⟨kind, rfl⟩ := hnamed
        obtain ⟨hkind, rfl⟩ := (resolve_eq_error_of_kind? (kind?_named kind)).1 h
        exact .named hkind
      · have hunknown := not_exists.1 hnamed
        rw [Target.resolve, kind?_unknown hunknown] at h
        obtain rfl := Except.error.inj h
        rw [Refusal.ofUnknown]
        split
        next text htext => exact .unknown hunknown htext
        next cause hcause => exact .unshown hunknown hcause
  · rintro (hkind | hkind | ⟨hunknown, htext⟩ | ⟨hunknown, hcause⟩)
    · exact (resolve_eq_error_of_kind? rfl).2 ⟨hkind, rfl⟩
    · exact (resolve_eq_error_of_kind? (kind?_named _)).2 ⟨hkind, rfl⟩
    · rw [Target.resolve, kind?_unknown hunknown, Refusal.ofUnknown, htext]
    · rw [Target.resolve, kind?_unknown hunknown, Refusal.ofUnknown, hcause]

end

/-! ## The way through a configuration -/

/-- **What a group lists, from left to right.** -/
inductive Flattened : Json → List String → Prop where
  | text (word : String) : Flattened (.string word) [word]
  | nothing : Flattened (.array []) []
  | more {first : Json} {rest : List Json} {words further : List String} :
    Flattened first words → Flattened (.array rest) further →
      Flattened (.array (first :: rest)) (words ++ further)
  | names (members : List (String × Json)) : Flattened (.object members) (members.map Prod.fst)
  | null : Flattened .null []
  | bool (value : Bool) : Flattened (.bool value) []
  | int (value : Int) : Flattened (.int value) []
  | float (value : Binary64) : Flattened (.float value) []

theorem flattened_wordsIn : ∀ group : Json, Flattened group (wordsIn group)
  | .string word => by rw [wordsIn]; exact .text word
  | .array [] => .nothing
  | .array (first :: rest) => by
    rw [wordsIn, wordsInAll]
    have hrest := flattened_wordsIn (.array rest)
    rw [wordsIn] at hrest
    exact .more (flattened_wordsIn first) hrest
  | .object members => by rw [wordsIn]; exact .names members
  | .null => .null
  | .bool value => .bool value
  | .int value => .int value
  | .float value => .float value

theorem flattened_iff {group : Json} {words : List String} :
    Flattened group words ↔ wordsIn group = words := by
  constructor
  · intro h
    induction h with
    | more _ _ hfirst hrest =>
      rw [wordsIn] at hrest
      rw [wordsIn, wordsInAll, hfirst, hrest]
    | _ => simp [wordsIn, wordsInAll]
  · rintro rfl
    exact flattened_wordsIn group

/-- **The aliases that a configuration gives, in order**, each with the kind that its target
means. -/
inductive Traversal : Configuration → List (String × Keyword) → Prop where
  | nil : Traversal [] []
  | cons {group : Json} {target : Target} {kind : Keyword} {words : List String}
    {rest : Configuration} {occurrences : List (String × Keyword)} :
    target.Means kind → Flattened group words → Traversal rest occurrences →
      Traversal ((group, target) :: rest) (words.map (·, kind) ++ occurrences)

theorem Traversal.eq_occurrences {configuration : Configuration}
    {occurrences : List (String × Keyword)} (h : Traversal configuration occurrences) :
    configuration.occurrences = occurrences := by
  induction h with
  | nil => rfl
  | cons hmeans hflattened _ ih =>
    rw [Configuration.occurrences] at ih ⊢
    rw [List.flatMap_cons, ih, occurrencesIn, meant?_eq_some_iff.2 hmeans]
    simp only [flattened_iff.1 hflattened]

theorem traversal_occurrences {configuration : Configuration}
    (h : ∀ entry ∈ configuration, ∃ kind, entry.2.meant? = some kind) :
    Traversal configuration configuration.occurrences := by
  induction configuration with
  | nil => exact .nil
  | cons entry rest ih =>
    obtain ⟨⟨kind, hkind⟩, hrest⟩ := List.forall_mem_cons.1 h
    rw [Configuration.occurrences, List.flatMap_cons, occurrencesIn, hkind]
    exact .cons (meant?_eq_some_iff.1 hkind) (flattened_wordsIn _) (ih hrest)

/-- Every entry has been gone through. -/
theorem Traversal.means {configuration : Configuration} {occurrences : List (String × Keyword)}
    (h : Traversal configuration occurrences) :
    ∀ entry ∈ configuration, ∃ kind, entry.2.meant? = some kind := by
  induction h with
  | nil => simp
  | cons hmeans _ _ ih => exact List.forall_mem_cons.2 ⟨⟨_, meant?_eq_some_iff.2 hmeans⟩, ih⟩

/-- **A configuration is readable** if every target means a kind and every alias is a single word:
it can be gone through to the end. -/
def Configuration.Readable (configuration : Configuration) : Prop :=
  ∃ occurrences, Traversal configuration occurrences ∧ ∀ o ∈ occurrences, SingleWord o.1

theorem admissible_iff_readable {configuration : Configuration} :
    (∀ entry ∈ configuration, Admissible entry) ↔ configuration.Readable := by
  constructor
  · intro h
    refine ⟨_, traversal_occurrences fun entry hentry => (h entry hentry).1, ?_⟩
    rintro ⟨word, kind⟩ hmem
    obtain ⟨entry, hentry, -, hword⟩ := Configuration.mem_occurrences.1 hmem
    exact isWord_iff.1 ((h entry hentry).2 word hword)
  · rintro ⟨occurrences, htraversal, hwords⟩ entry hentry
    obtain ⟨kind, hkind⟩ := htraversal.means entry hentry
    refine ⟨⟨kind, hkind⟩, fun word hword => isWord_iff.2 (hwords (word, kind) ?_)⟩
    rw [← htraversal.eq_occurrences]
    exact Configuration.mem_occurrences.2 ⟨entry, hentry, hkind, hword⟩

/-- An alias fails if it is no single word. -/
inductive WordFails : String → Refusal → Prop where
  | notWord {word : String} : ¬ SingleWord word → WordFails word (.flaw (.notWord word))

/-- **An entry fails** for its target, or else because its group is too deep, or else for the first
of its aliases that fails. -/
inductive EntryFails (limit : Nat) : Json × Target → Refusal → Prop where
  | target {group : Json} {target : Target} {refusal : Refusal} :
    target.Fails limit refusal → EntryFails limit (group, target) refusal
  | tooDeep {group : Json} {target : Target} {kind : Keyword} : target.Means kind →
      limit < groupDepth group → EntryFails limit (group, target) .tooDeep
  | alias {group : Json} {target : Target} {kind : Keyword} {words : List String}
    {refusal : Refusal} : target.Means kind → groupDepth group ≤ limit → Flattened group words →
      First WordFails words refusal → EntryFails limit (group, target) refusal

namespace Aliases

variable {limit : Nat} {known : Aliases} {configuration : Configuration} {refusal : Refusal}

theorem giving_eq_error_iff {kind : Keyword} {draft : Draft} {word : String} :
    Draft.giving known kind draft word = .error refusal ↔ WordFails word refusal := by
  rw [giving_eq]
  by_cases hword : isWord word = true
  · rw [if_pos hword]
    exact ⟨nofun, fun ⟨hnot⟩ => absurd (isWord_iff.1 hword) hnot⟩
  · rw [if_neg hword]
    refine ⟨fun h => ?_, fun ⟨_⟩ => rfl⟩
    obtain rfl := Except.error.inj h
    exact .notWord (mt isWord_iff.2 hword)

/-- The aliases of a group fail where its first one does that is no single word. -/
theorem giving_all_eq_error_iff {kind : Keyword} {draft : Draft} {words : List String} :
    words.foldlM (Draft.giving known kind) draft = .error refusal ↔
      First WordFails words refusal :=
  foldlM_eq_error_iff (Draft.giving known kind) fun _ _ _ => giving_eq_error_iff

theorem entering_eq_error_iff {draft : Draft} {entry : Json × Target} :
    Draft.entering limit known draft entry = .error refusal ↔ EntryFails limit entry refusal := by
  obtain ⟨group, target⟩ := entry
  constructor
  · intro h
    rw [Draft.entering, aliasesIn_eq] at h
    split at h
    next kind hkind =>
      by_cases hdepth : groupDepth group ≤ limit
      · simp only [if_pos hdepth] at h
        exact .alias (resolve_eq_ok_iff.1 hkind) hdepth (flattened_wordsIn group)
          (giving_all_eq_error_iff.1 h)
      · simp only [if_neg hdepth] at h
        obtain rfl := Except.error.inj h
        exact .tooDeep (resolve_eq_ok_iff.1 hkind) (Nat.lt_of_not_le hdepth)
    next other hother =>
      obtain rfl := Except.error.inj h
      exact .target (resolve_eq_error_iff.1 hother)
  · rintro (hfails | ⟨hmeans, hdeep⟩ | ⟨hmeans, hdepth, hflattened, hfirst⟩)
    · simp only [Draft.entering, resolve_eq_error_iff.2 hfails]
    · simp only [Draft.entering, resolve_eq_ok_iff.2 hmeans, aliasesIn_eq,
        if_neg (Nat.not_le.2 hdeep)]
    · simp only [Draft.entering, resolve_eq_ok_iff.2 hmeans, aliasesIn_eq, if_pos hdepth,
        flattened_iff.1 hflattened]
      exact giving_all_eq_error_iff.2 hfirst

theorem entries_eq_error_iff {draft : Draft} :
    configuration.foldlM (Draft.entering limit known) draft = .error refusal ↔
      First (EntryFails limit) configuration refusal :=
  foldlM_eq_error_iff (Draft.entering limit known) fun _ _ _ => entering_eq_error_iff

/-- **A configuration that cannot be gone through** is refused where its first entry fails. -/
theorem configureWithin_of_first (h : First (EntryFails limit) configuration refusal) :
    known.configureWithin limit configuration = .error refusal := by
  rw [configureWithin, additionsWithin, entries_eq_error_iff.2 h]
  rfl

theorem exists_first (h : ¬ (configuration.Readable ∧ configuration.Within limit)) :
    ∃ refusal, First (EntryFails limit) configuration refusal := by
  cases hentries : configuration.foldlM (Draft.entering limit empty) {} with
  | ok draft =>
    obtain ⟨⟨hadmissible, hwithin⟩, -⟩ := entries_eq_ok_iff.1 hentries
    exact absurd ⟨admissible_iff_readable.1 hadmissible, hwithin⟩ h
  | error refusal => exact ⟨refusal, entries_eq_error_iff.1 hentries⟩

/-! ## Collisions -/

/-- **The kind that an alias has to keep**: that of the known alias, or else of the word of the
language, or else of its first occurrence. -/
def keptKind (known : Aliases) (occurrences : List (String × Keyword)) (word : String) :
    Option Keyword :=
  (known.kind? word).or ((standardWords.lookup word).or (occurrences.lookup word))

/-- The conflicts of a readable configuration. -/
def collisions (known : Aliases) (occurrences : List (String × Keyword)) : List Conflict :=
  occurrences.filterMap (conflict? (known.keptKind occurrences))

theorem conflicts_draftOf (occurrences : List (String × Keyword)) :
    (draftOf known occurrences).conflicts.reverse = known.collisions occurrences := by
  rw [draftOf, conflicts_foldl, List.reverse_append, List.reverse_reverse]
  -- a draft that starts empty asks the known aliases first, then the language
  simp only [established_eq, base, Option.or_assoc]
  rfl

/-- **A readable configuration is refused for its conflicts**, or not at all, if it is within the
limit. -/
theorem configureWithin_eq_error_iff_of_readable (h : configuration.Readable)
    (hwithin : configuration.Within limit) :
    known.configureWithin limit configuration = .error refusal ↔
      known.collisions configuration.occurrences ≠ [] ∧
        refusal = .flaw (.collisions (known.collisions configuration.occurrences)) := by
  have hentries : configuration.foldlM (Draft.entering limit known) {} =
      .ok (draftOf known configuration.occurrences) :=
    entries_eq_ok_iff.2 ⟨⟨admissible_iff_readable.2 h, hwithin⟩, rfl⟩
  rw [configureWithin, additionsWithin, hentries, ← conflicts_draftOf]
  simp only [List.isEmpty_iff, ne_eq, List.reverse_eq_nil_iff]
  by_cases hnone : (draftOf known configuration.occurrences).conflicts = []
  · simp [hnone, Except.map]
  · simp only [hnone, if_false, Except.map, Except.error.injEq, not_false_iff, true_and]
    exact eq_comm

/-- A bad alias of the first entry, and a bad target of the second one. -/
def faulty : Configuration :=
  [(.array [.string "if", .string "b c"], .value (.string "TRY")), (.null, .value (.string "NOPE"))]

end Aliases

end ScriptFrontend
