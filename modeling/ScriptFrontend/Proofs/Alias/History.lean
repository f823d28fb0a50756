import ScriptFrontend.Alias.History
import ScriptFrontend.Proofs.Alias.Additions
import ScriptFrontend.Proofs.Lexeme.Rule

/-!
# Proofs/Alias/History — what holds of the aliases whatever has been requested

`Sound` is the invariant: every alias is a single word and is listed once, and one that is a word of
the language stands for what it stands for there.  A granted request keeps it
(`sound_of_configure`), since each alias that it adds has the kind that the alias has to keep; a
refused one changes nothing.  So it holds after every history, no alias is ever lost or changed
(`kind?_foldl_after`), and the vocabulary is that of the language with the aliases added
(`kind?_vocabulary`).
-/

namespace ScriptFrontend

/-- A letter and then letters and digits. -/
def SingleWord (text : String) : Prop :=
  ∃ first body, text.toList = first :: body ∧ Letter first ∧ ∀ c ∈ body, Letter c ∨ Digit c

theorem isWord_iff {text : String} : isWord text = true ↔ SingleWord text := by
  unfold isWord SingleWord
  cases text.toList with
  | nil => simp
  | cons first body =>
    simp only [Bool.and_eq_true, isAlpha_iff, List.all_eq_true, isAlphanum_iff]
    constructor
    · exact fun h => ⟨first, body, rfl, h⟩
    · rintro ⟨_, _, heq, h⟩
      obtain ⟨rfl, rfl⟩ := List.cons.inj heq
      exact h

namespace Aliases

variable {limit : Nat} {known next fresh : Aliases} {word : String} {kind : Keyword}

/-- What holds of the known aliases whatever has been requested. -/
structure Sound (aliases : Aliases) : Prop where
  /-- Every alias is a single word. -/
  words : ∀ entry ∈ aliases.entries, SingleWord entry.1
  /-- Every alias is listed once. -/
  once : (aliases.entries.map Prod.fst).Nodup
  /-- No alias gives a word of the language another kind. -/
  standard : ∀ word kind, aliases.kind? word = some kind →
    ∀ other ∈ standardWords.lookup word, other = kind

/-! ## Adding aliases -/

/-- The part of soundness that is about the list alone. -/
def WellListed (aliases : Aliases) : Prop :=
  (∀ entry ∈ aliases.entries, SingleWord entry.1) ∧ (aliases.entries.map Prod.fst).Nodup

theorem kind?_eq_none_iff {aliases : Aliases} :
    aliases.kind? word = none ↔ word ∉ aliases.entries.map Prod.fst := by
  rw [kind?, List.lookup_eq_none_iff, List.mem_map]
  constructor
  · rintro h ⟨entry, hmem, rfl⟩
    simpa using h entry hmem
  · intro h entry hmem
    exact bne_iff_ne.2 fun heq => h ⟨entry, hmem, heq.symm⟩

theorem WellListed.add (h : WellListed known) (hword : SingleWord word) (kind : Keyword) :
    WellListed (known.add word kind) := by
  unfold Aliases.add
  split
  · exact h
  · rename_i hnew
    have hnot : word ∉ known.entries.map Prod.fst :=
      kind?_eq_none_iff.1 (by simpa using hnew)
    refine ⟨fun entry hmem => ?_, ?_⟩
    · rcases List.mem_append.1 hmem with hold | hone
      · exact h.1 entry hold
      · rwa [List.mem_singleton.1 hone]
    · rw [List.map_append, List.nodup_append]
      refine ⟨h.2, by simp, fun other hother entry hentry heq => hnot ?_⟩
      simp only [List.map_cons, List.map_nil, List.mem_singleton] at hentry
      rwa [← hentry, ← heq]

theorem wellListed_union (hknown : WellListed known) (hfresh : WellListed fresh) :
    WellListed (known.union fresh) := by
  obtain ⟨entries⟩ := fresh
  have hwords := hfresh.1
  simp only [union]
  clear hfresh
  induction entries generalizing known with
  | nil => exact hknown
  | cons entry entries ih =>
    obtain ⟨hfirst, hrest⟩ := List.forall_mem_cons.1 hwords
    exact ih (hknown.add hfirst entry.2) hrest

/-- What a draft adds are words among its occurrences. -/
theorem wellListed_foldl_give (known : Aliases) :
    ∀ (occurrences : List (String × Keyword)) (draft : Draft),
      (∀ occurrence ∈ occurrences, SingleWord occurrence.1) → WellListed draft.fresh →
        WellListed (occurrences.foldl (Draft.give known) draft).fresh
  | [], _, _, hdraft => hdraft
  | (word, kind) :: occurrences, draft, hwords, hdraft => by
    obtain ⟨hfirst, hrest⟩ := List.forall_mem_cons.1 hwords
    refine wellListed_foldl_give known occurrences _ hrest ?_
    rcases give_cases known draft word kind with hagrees | ⟨old, hold, hne⟩
    · rw [give_of_agrees hagrees]
      exact hdraft.add hfirst kind
    · rw [give_of_conflict hold hne]
      exact hdraft

/-- What a configuration adds is listed once and of single words. -/
theorem wellListed_of_additions {configuration : Configuration}
    (h : known.additionsWithin limit configuration = .ok fresh) : WellListed fresh := by
  obtain ⟨hall, -, -, rfl⟩ := additionsWithin_eq_ok_iff.1 h
  refine wellListed_foldl_give known _ {} ?_ ⟨by simp [empty], by simp [empty]⟩
  rintro ⟨word, kind⟩ hmem
  obtain ⟨entry, hentry, -, hword⟩ := Configuration.mem_occurrences.1 hmem
  exact isWord_iff.1 ((hall entry hentry).2 word hword)

/-- An alias that a draft adds has the kind that it has to keep. -/
theorem fresh_draftOf {occurrences : List (String × Keyword)}
    (h : (draftOf known occurrences).fresh.kind? word = some kind) :
    (base known word).or (occurrences.lookup word) = some kind := by
  have hkept := established_foldl known word occurrences {}
  rw [established_eq, ← draftOf, h] at hkept
  exact hkept.symm

/-! ## Granted requests -/

theorem configureWithin_eq_ok_iff {configuration : Configuration} :
    known.configureWithin limit configuration = .ok next ↔
      ∃ fresh, known.additionsWithin limit configuration = .ok fresh ∧
        known.union fresh = next := by
  rw [configureWithin]
  cases known.additionsWithin limit configuration <;> simp [Except.map]

/-- **A configuration keeps the invariant.** -/
theorem sound_of_configure {configuration : Configuration} (hsound : Sound known)
    (h : known.configureWithin limit configuration = .ok next) : Sound next := by
  obtain ⟨fresh, hadditions, rfl⟩ := configureWithin_eq_ok_iff.1 h
  have hlisted := wellListed_union ⟨hsound.words, hsound.once⟩ (wellListed_of_additions hadditions)
  obtain ⟨-, -, -, rfl⟩ := additionsWithin_eq_ok_iff.1 hadditions
  refine ⟨hlisted.1, hlisted.2, fun word kind hkind other hother => ?_⟩
  rw [kind?_union] at hkind
  cases hknown : known.kind? word with
  | some old =>
    obtain rfl : old = kind := by simpa [hknown] using hkind
    exact hsound.standard word old hknown other hother
  | none =>
    have hadded := fresh_draftOf (by simpa [hknown] using hkind)
    rw [base, hknown, Option.mem_def.1 hother] at hadded
    exact Option.some.inj hadded

theorem kind?_of_configure {configuration : Configuration}
    (h : known.configureWithin limit configuration = .ok next)
    (hknown : known.kind? word = some kind) : next.kind? word = some kind := by
  obtain ⟨fresh, -, rfl⟩ := configureWithin_eq_ok_iff.1 h
  rw [kind?_union, hknown]
  rfl

theorem mapError_eq_ok_iff {α ε ε' : Type} {f : ε → ε'} {result : Except ε α} {a : α} :
    result.mapError f = .ok a ↔ result = .ok a := by
  cases result <;> simp [Except.mapError]

theorem load_eq_ok_iff {file : Option (List UInt8)} :
    known.load file = .ok next ↔
      ∃ configuration, AliasFile.configuration file = .ok configuration ∧
        known.configure configuration = .ok next := by
  rw [load, fileAdditions]
  cases AliasFile.configuration file with
  | error flaw => simp [Except.map]
  | ok configuration =>
    simp only [Except.ok.injEq, exists_eq_left', configure, configureWithin, additions]
    cases known.additionsWithin Json.recursionLimit configuration <;>
      simp [Except.map, Except.mapError]

/-- Whatever is granted is a configuration. -/
theorem exists_configure_of_answer {request : Request} (h : known.answer request = .ok next) :
    ∃ configuration, known.configure configuration = .ok next := by
  cases request with
  | configure configuration => exact ⟨configuration, mapError_eq_ok_iff.1 h⟩
  | configureValue value =>
    have hbind := mapError_eq_ok_iff.1 h
    cases hvalue : Configuration.ofJson value with
    | error flaw => simp [hvalue, Except.bind, Except.mapError] at hbind
    | ok configuration =>
      exact ⟨configuration, by simpa [hvalue, Except.bind, Except.mapError] using hbind⟩
  | load file =>
    obtain ⟨configuration, -, hconfigure⟩ := load_eq_ok_iff.1 h
    exact ⟨configuration, hconfigure⟩

/-! ## Histories -/

theorem sound_after (hsound : Sound known) (request : Request) : Sound (known.after request) := by
  unfold after
  split
  next next h =>
    obtain ⟨configuration, hconfigure⟩ := exists_configure_of_answer h
    exact sound_of_configure hsound hconfigure
  next => exact hsound

theorem kind?_after (request : Request) (hknown : known.kind? word = some kind) :
    (known.after request).kind? word = some kind := by
  unfold after
  split
  next next h =>
    obtain ⟨configuration, hconfigure⟩ := exists_configure_of_answer h
    exact kind?_of_configure hconfigure hknown
  next => exact hknown

/-- **No alias is lost or changed.** -/
theorem kind?_foldl_after (requests : List Request) (hknown : known.kind? word = some kind) :
    (requests.foldl after known).kind? word = some kind := by
  induction requests generalizing known with
  | nil => exact hknown
  | cons request requests ih => exact ih (kind?_after request hknown)

/-- **The invariant holds after every history.** -/
theorem sound_history (requests : List Request) : Sound (history requests) := by
  have hempty : Sound empty := ⟨by simp [empty], by simp [empty], by simp⟩
  unfold history
  generalize empty = known at hempty ⊢
  induction requests generalizing known with
  | nil => exact hempty
  | cons request requests ih => exact ih _ (sound_after hempty request)

theorem history_append (front back : List Request) :
    history (front ++ back) = back.foldl after (history front) := List.foldl_append

/-! ## The vocabulary -/

theorem lookup_ofWords (words : List (String × Keyword)) (word : String) :
    (Vocabulary.ofWords words).entries.lookup word = (words.lookup word).map Kind.keyword := by
  induction words with
  | nil => rfl
  | cons entry words ih =>
    rw [Vocabulary.ofWords] at ih ⊢
    simp only [List.map_cons]
    rw [lookup_cons_eq, ih, lookup_cons_eq]
    by_cases hword : word = entry.1
    · simp [hword]
    · simp [hword]

/-- A filter on the words of a table keeps or drops all entries of a word. -/
theorem lookup_filter {α : Type} (test : String → Bool) (table : List (String × α))
    (word : String) :
    (table.filter fun entry => test entry.1).lookup word =
      if test word then table.lookup word else none := by
  induction table with
  | nil => simp
  | cons entry table ih =>
    rw [List.filter_cons]
    by_cases hword : word = entry.1
    · subst hword
      split
      · simp [lookup_cons_eq, *]
      · simp [*]
    · split
      · simp [lookup_cons_eq, hword, ih]
      · simp [lookup_cons_eq, hword, ih]

/-- **The vocabulary** gives a word the kind that it has as an alias or in the language. -/
theorem kind?_vocabulary (aliases : Aliases) (word : String) :
    aliases.vocabulary.kind? word = (aliases.base word).map Kind.keyword := by
  rw [vocabulary, Vocabulary.extend, Vocabulary.kind?, List.lookup_append,
    lookup_filter (fun word => (aliases.entries.lookup word).isNone), lookup_ofWords,
    Vocabulary.standard, lookup_ofWords, base, kind?]
  cases aliases.entries.lookup word <;> simp

/-- The vocabulary has every word once. -/
theorem nodup_vocabulary {aliases : Aliases} (h : Sound aliases) :
    (aliases.vocabulary.entries.map Prod.fst).Nodup := by
  have hstandard : (Vocabulary.standard.entries.map Prod.fst).Nodup := by decide
  have hwords (words : List (String × Keyword)) :
      (Vocabulary.ofWords words).entries.map Prod.fst = words.map Prod.fst := by
    simp [Vocabulary.ofWords, Function.comp_def]
  rw [vocabulary, Vocabulary.extend, List.map_append, hwords, List.nodup_append]
  refine ⟨hstandard.sublist (List.filter_sublist.map _), h.once, fun word hword other hother => ?_⟩
  rintro rfl
  obtain ⟨entry, hentry, rfl⟩ := List.mem_map.1 hword
  exact kind?_eq_none_iff.1 (Option.isNone_iff_eq_none.1 (List.mem_filter.1 hentry).2) hother

/-- A word of the language keeps its kind. -/
theorem base_of_standard {aliases : Aliases} (h : Sound aliases)
    (hstandard : standardWords.lookup word = some kind) : aliases.base word = some kind := by
  rw [base]
  cases hkind : aliases.kind? word with
  | none => exact hstandard
  | some other =>
    rw [h.standard word other hkind kind hstandard]
    rfl

/-- What agrees with the kind that a word has before a configuration agrees with the known aliases
and with the language. -/
theorem agrees_base_iff {aliases : Aliases} (h : Sound aliases) :
    (∀ old ∈ aliases.base word, old = kind) ↔
      (∀ old, aliases.kind? word = some old → old = kind) ∧
        ∀ old, standardWords.lookup word = some old → old = kind := by
  refine ⟨fun hagrees => ⟨fun old hold => hagrees old ?_, fun old hold => hagrees old ?_⟩,
    fun hagrees old hold => ?_⟩
  · rw [base, hold]
    rfl
  · exact base_of_standard h hold
  · rcases Option.or_eq_some_iff.1 hold with hknown | ⟨-, hstandard⟩
    · exact hagrees.1 old hknown
    · exact hagrees.2 old hstandard

/-- **What every history keeps.**  After the requests `front ++ back`, every alias is a single word
that is listed once; the aliases known after `front` stand for what they stood for; the vocabulary
has the words of the language and the aliases, each with its own kind, once, and nothing else; and a
further request that is refused changes nothing. -/
theorem history_invariants (front back : List Request) :
    (∀ entry ∈ (history (front ++ back)).entries, SingleWord entry.1) ∧
    ((history (front ++ back)).entries.map Prod.fst).Nodup ∧
    (∀ word kind, (history front).kind? word = some kind →
      (history (front ++ back)).kind? word = some kind) ∧
    (∀ word kind, Vocabulary.standard.kind? word = some kind →
      (history (front ++ back)).vocabulary.kind? word = some kind) ∧
    (∀ word kind, (history (front ++ back)).kind? word = some kind →
      (history (front ++ back)).vocabulary.kind? word = some (.keyword kind)) ∧
    (∀ word kind, (history (front ++ back)).vocabulary.kind? word = some kind →
      kind.isKeyword = true ∧ (Vocabulary.standard.kind? word = some kind ∨
        ∃ given, kind = .keyword given ∧ (history (front ++ back)).kind? word = some given)) ∧
    ((history (front ++ back)).vocabulary.entries.map Prod.fst).Nodup ∧
    ∀ request flaw, (history (front ++ back)).answer request = .error flaw →
      history (front ++ back ++ [request]) = history (front ++ back) := by
  have hsound := sound_history (front ++ back)
  refine ⟨hsound.words, hsound.once, fun word kind hkind => ?_, fun word kind hkind => ?_,
    fun word kind hkind => ?_, fun word kind hkind => ?_, nodup_vocabulary hsound,
    fun request flaw hflaw => ?_⟩
  · rw [history_append]
    exact kind?_foldl_after back hkind
  · rw [Vocabulary.standard, Vocabulary.kind?, lookup_ofWords] at hkind
    obtain ⟨given, hgiven, rfl⟩ := Option.map_eq_some_iff.1 hkind
    rw [kind?_vocabulary, base_of_standard hsound hgiven]
    rfl
  · rw [kind?_vocabulary, base, hkind]
    rfl
  · rw [kind?_vocabulary] at hkind
    obtain ⟨given, hgiven, rfl⟩ := Option.map_eq_some_iff.1 hkind
    refine ⟨rfl, ?_⟩
    rcases Option.or_eq_some_iff.1 hgiven with halias | ⟨-, hstandard⟩
    · exact .inr ⟨given, rfl, halias⟩
    · rw [Vocabulary.standard, Vocabulary.kind?, lookup_ofWords, hstandard]
      exact .inl rfl
  · rw [history_append _ [request], List.foldl_cons, List.foldl_nil, after, hflaw]

/-- A second kind for an alias and a word that is none are refused. -/
example : history [.configure [(.string "si", .value (.string "IF"))],
      .configure [(.string "wenn", .kind (.keyword .ifWord)),
        (.string "si", .value (.string "TRY"))],
      .configure [(.array [.string "a", .string "b c"], .value (.string "IF"))], .load none] =
    ⟨[("si", .ifWord)]⟩ := by cbv

end Aliases

end ScriptFrontend
