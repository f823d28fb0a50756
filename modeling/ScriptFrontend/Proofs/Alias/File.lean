import ScriptFrontend.Proofs.Alias.History

/-!
# Proofs/Alias/File — which alias files are accepted

An alias file lists aliases in the names of its entries and a kind of reserved word in each value.
`Fits known entries` says that entries can be added to the known aliases: every value is the name of
such a kind, every alias is a single word, and no alias gets two kinds, be it from two entries, from
the known aliases or from the language.

Entries whose names list the same aliases, with whatever blanks, are one group, and the last of them
gives the value (`mem_ofPairs`).  So a file is accepted exactly if its **lasting** entries fit
(`load_accepts_iff`).  Where no two names list the same aliases these are all of its entries; where
two do, the earlier one has no effect, not even that of being refused (`overridden_accepted`).
-/

namespace ScriptFrontend

open Aliases

namespace AliasFile

/-! ## The entries that count -/

/-- The entries of an alias file behind which no entry lists the same aliases. -/
def lasting : List (String × Json) → List (String × Json)
  | [] => []
  | entry :: rest =>
    if listedAliases entry.1 ∈ rest.map (fun other => listedAliases other.1) then lasting rest
    else entry :: lasting rest

/-- Where no two names list the same aliases, every entry lasts. -/
theorem lasting_eq_self {entries : List (String × Json)}
    (h : (entries.map fun entry => listedAliases entry.1).Nodup) : lasting entries = entries := by
  induction entries with
  | nil => rfl
  | cons entry rest ih =>
    obtain ⟨hfirst, hrest⟩ := List.nodup_cons.1 h
    rw [lasting, if_neg hfirst, ih hrest]

/-- What an entry is in a configuration. -/
def groupEntry (entry : String × Json) : Json × Target := (groupOf entry.1, .value entry.2)

/-! ## Groups -/

/-- Lists of texts are the same key exactly if they are equal. -/
theorem sameKey_strings (words others : List String) :
    (Json.array (words.map .string)).sameKey (.array (others.map .string)) = true ↔
      words = others := by
  induction words generalizing others with
  | nil =>
    cases others with
    | nil => simp [Json.sameKey]
    | cons other others => simp [Json.sameKey, Json.integer?]
  | cons word words ih =>
    cases others with
    | nil => simp [Json.sameKey, Json.integer?]
    | cons other others => simp [Json.sameKey, ih]

theorem groupOf_eq_iff {name other : String} :
    groupOf name = groupOf other ↔ listedAliases name = listedAliases other := by
  have hinjective : Function.Injective Json.string := fun _ _ => Json.string.inj
  simp [groupOf, List.map_inj_right hinjective]

theorem sameKey_groupOf {name other : String} :
    (groupOf name).sameKey (groupOf other) = true ↔ groupOf name = groupOf other :=
  (sameKey_strings _ _).trans groupOf_eq_iff.symm

/-- A configuration of groups that names list, each of them once. -/
structure Grouped (configuration : Configuration) : Prop where
  named : ∀ entry ∈ configuration, ∃ name, entry.1 = groupOf name
  once : (configuration.map Prod.fst).Nodup

theorem Grouped.tail {entry : Json × Target} {rest : Configuration}
    (h : Grouped (entry :: rest)) : Grouped rest :=
  ⟨(List.forall_mem_cons.1 h.named).2, (List.nodup_cons.1 h.once).2⟩

/-- What is put takes the place of its group. -/
theorem mem_put {configuration : Configuration} (h : Grouped configuration) {name : String}
    {target : Target} {entry : Json × Target} :
    entry ∈ configuration.put (groupOf name) target ↔
      entry = (groupOf name, target) ∨ entry ∈ configuration ∧ entry.1 ≠ groupOf name := by
  induction configuration with
  | nil => simp [Configuration.put]
  | cons first rest ih =>
    obtain ⟨⟨other, hother⟩, -⟩ := List.forall_mem_cons.1 h.named
    obtain ⟨hnot, -⟩ := List.nodup_cons.1 h.once
    obtain ⟨group, old⟩ := first
    obtain rfl : group = groupOf other := hother
    rw [Configuration.put]
    split
    next hsame =>
      have heq := sameKey_groupOf.1 hsame
      have hrest : entry ∈ rest → entry.1 ≠ groupOf name := fun hmem hgroup =>
        hnot (List.mem_map.2 ⟨entry, hmem, hgroup.trans heq.symm⟩)
      rw [List.mem_cons, List.mem_cons, heq]
      constructor
      · rintro (rfl | hmem)
        · exact .inl rfl
        · exact .inr ⟨.inr hmem, hrest hmem⟩
      · rintro (rfl | ⟨rfl | hmem, hne⟩)
        · exact .inl rfl
        · exact absurd rfl hne
        · exact .inr hmem
    next hdiffer =>
      have hne : groupOf other ≠ groupOf name := fun heq => hdiffer (sameKey_groupOf.2 heq)
      rw [List.mem_cons, List.mem_cons, ih h.tail]
      constructor
      · rintro (rfl | rfl | ⟨hmem, hgroup⟩)
        · exact .inr ⟨.inl rfl, hne⟩
        · exact .inl rfl
        · exact .inr ⟨.inr hmem, hgroup⟩
      · rintro (rfl | ⟨rfl | hmem, hgroup⟩)
        · exact .inr (.inl rfl)
        · exact .inl rfl
        · exact .inr (.inr ⟨hmem, hgroup⟩)

theorem Grouped.put {configuration : Configuration} (h : Grouped configuration) (name : String)
    (target : Target) : Grouped (configuration.put (groupOf name) target) where
  named entry hmem := by
    rcases (mem_put h).1 hmem with rfl | ⟨hold, -⟩
    · exact ⟨name, rfl⟩
    · exact h.named entry hold
  once := by
    induction configuration with
    | nil => simp [Configuration.put]
    | cons first rest ih =>
      obtain ⟨hnot, hrest⟩ := List.nodup_cons.1 h.once
      rw [Configuration.put]
      split
      next => exact h.once
      next hdiffer =>
        refine List.nodup_cons.2 ⟨fun hmem => ?_, ih h.tail⟩
        obtain ⟨entry, hentry, hgroup⟩ := List.mem_map.1 hmem
        rcases (mem_put h.tail).1 hentry with rfl | ⟨hold, -⟩
        · obtain ⟨other, hother⟩ := h.named first List.mem_cons_self
          exact hdiffer (by rw [hother] at hgroup ⊢; exact sameKey_groupOf.2 hgroup.symm)
        · exact hnot (hgroup ▸ List.mem_map_of_mem hold)

/-- **Of entries that list the same aliases the last one counts.** -/
theorem mem_foldl_put (entries : List (String × Json)) {configuration : Configuration}
    (h : Grouped configuration) {entry : Json × Target} :
    entry ∈ (entries.map groupEntry).foldl (fun c pair => c.put pair.1 pair.2) configuration ↔
      entry ∈ (lasting entries).map groupEntry ∨
        entry ∈ configuration ∧ ∀ other ∈ entries, entry.1 ≠ groupOf other.1 := by
  induction entries generalizing configuration with
  | nil => simp [lasting]
  | cons first rest ih =>
    have hput := ih (h.put first.1 (.value first.2))
    rw [mem_put h] at hput
    rw [List.map_cons, List.foldl_cons, lasting, List.forall_mem_cons]
    refine hput.trans ?_
    split
    next hlater =>
      obtain ⟨later, hlater, hsame⟩ := List.mem_map.1 hlater
      have hgroup : groupOf later.1 = groupOf first.1 := groupOf_eq_iff.2 hsame
      refine or_congr_right ⟨?_, ?_⟩
      · rintro ⟨rfl | hmem, hrest⟩
        · exact absurd hgroup.symm (hrest later hlater)
        · exact ⟨hmem.1, hmem.2, hrest⟩
      · rintro ⟨hmem, hfirst, hrest⟩
        exact ⟨.inr ⟨hmem, hfirst⟩, hrest⟩
    next hlast =>
      have hrest : ∀ other ∈ rest, groupOf first.1 ≠ groupOf other.1 := fun other hmem heq =>
        hlast (List.mem_map.2 ⟨other, hmem, (groupOf_eq_iff.1 heq).symm⟩)
      rw [List.map_cons, List.mem_cons]
      constructor
      · rintro (hmem | ⟨rfl | hmem, hall⟩)
        · exact .inl (.inr hmem)
        · exact .inl (.inl rfl)
        · exact .inr ⟨hmem.1, hmem.2, hall⟩
      · rintro ((rfl | hmem) | ⟨hmem, hfirst, hall⟩)
        · exact .inr ⟨.inl rfl, hrest⟩
        · exact .inl hmem
        · exact .inr ⟨.inr ⟨hmem, hfirst⟩, hall⟩

/-- The configuration of a file consists of the entries that last. -/
theorem mem_ofPairs {entries : List (String × Json)} {entry : Json × Target} :
    entry ∈ Configuration.ofPairs (entries.map groupEntry) ↔
      entry ∈ (lasting entries).map groupEntry := by
  rw [Configuration.ofPairs, mem_foldl_put entries ⟨by simp, by simp⟩]
  simp

/-! ## Acceptance -/

/-- A value is the name of a kind, that of a reserved word. -/
def Names (value : Json) (kind : Keyword) : Prop :=
  ∃ name, value = .string name ∧ Kind.ofName? name = some (.keyword kind)

theorem meant?_value_iff {value : Json} {kind : Keyword} :
    (Target.value value).meant? = some kind ↔ Names value kind := by
  cases value with
  | string name =>
    simp only [Target.meant?, Names, Json.string.injEq, exists_eq_left']
    cases Kind.ofName? name with
    | none => simp
    | some k => cases k <;> simp
  | _ => simp [Target.meant?, Names]

theorem wordsIn_groupOf (name : String) : wordsIn (groupOf name) = listedAliases name := by
  have hall (words : List String) : wordsInAll (words.map .string) = words := by
    induction words with
    | nil => rfl
    | cons word words ih => simp [wordsInAll, wordsIn, ih]
  exact hall _

theorem groupDepth_groupOf (name : String) : groupDepth (groupOf name) = 1 := by
  have hall (words : List String) : groupDepthAll (words.map .string) = 0 := by
    induction words with
    | nil => rfl
    | cons word words ih => simp [groupDepthAll, groupDepth, ih]
  exact congrArg (· + 1) (hall _)

/-- **Entries of an alias file can be added** to the known aliases. -/
structure Fits (known : Aliases) (entries : List (String × Json)) : Prop where
  /-- Every value is the name of a reserved word's kind. -/
  named : ∀ entry ∈ entries, ∃ kind, Names entry.2 kind
  /-- Every alias is a single word. -/
  words : ∀ entry ∈ entries, ∀ word ∈ listedAliases entry.1, SingleWord word
  /-- No two entries give an alias different kinds. -/
  together : ∀ one ∈ entries, ∀ two ∈ entries, ∀ word ∈ listedAliases one.1,
    word ∈ listedAliases two.1 → ∀ kind other, Names one.2 kind → Names two.2 other → other = kind
  /-- No entry gives a known alias another kind. -/
  known : ∀ entry ∈ entries, ∀ word ∈ listedAliases entry.1, ∀ kind, Names entry.2 kind →
    ∀ other, known.kind? word = some other → other = kind
  /-- No entry gives a word of the language another kind. -/
  standard : ∀ entry ∈ entries, ∀ word ∈ listedAliases entry.1, ∀ kind, Names entry.2 kind →
    ∀ other, standardWords.lookup word = some other → other = kind

/-- The aliases that the configuration of a file gives. -/
theorem mem_occurrences_ofPairs {entries : List (String × Json)} {word : String} {kind : Keyword} :
    (word, kind) ∈ (Configuration.ofPairs (entries.map groupEntry)).occurrences ↔
      ∃ entry ∈ lasting entries, Names entry.2 kind ∧ word ∈ listedAliases entry.1 := by
  simp only [Configuration.mem_occurrences, mem_ofPairs, List.mem_map]
  constructor
  · rintro ⟨_, ⟨entry, hmem, rfl⟩, hkind, hword⟩
    exact ⟨entry, hmem, meant?_value_iff.1 hkind, by rwa [groupEntry, wordsIn_groupOf] at hword⟩
  · rintro ⟨entry, hmem, hkind, hword⟩
    exact ⟨_, ⟨entry, hmem, rfl⟩, meant?_value_iff.2 hkind, by rwa [groupEntry, wordsIn_groupOf]⟩

/-- The groups of a file are lists of texts. -/
theorem within_ofPairs (entries : List (String × Json)) :
    Configuration.Within Json.recursionLimit (.ofPairs (entries.map groupEntry)) := by
  intro entry hmem
  obtain ⟨member, -, rfl⟩ := List.mem_map.1 (mem_ofPairs.1 hmem)
  rw [groupEntry, groupDepth_groupOf]
  decide

theorem lasting_subset : ∀ entries : List (String × Json), lasting entries ⊆ entries
  | [] => by simp [lasting]
  | entry :: rest => by
    rw [lasting]
    split
    · exact List.subset_cons_of_subset _ (lasting_subset rest)
    · exact List.cons_subset_cons _ (lasting_subset rest)

theorem showable_of_value {text : String} {json : Json} (h : AliasFile.value text = .ok json) :
    Json.Showable AliasFile.nestingLimit json := by
  unfold AliasFile.value at h
  split at h
  next json' hread =>
    obtain rfl := Except.ok.inj h
    exact Json.showable_of_readWithin (Nat.le_refl _) hread
  all_goals cases h

/-- A file that spells a configuration holds the object with its entries. -/
theorem exists_entries_of_configuration {file : Option (List UInt8)}
    {configuration : Configuration} (h : AliasFile.configuration file = .ok configuration) :
    ∃ text entries, AliasFile.value text = .ok (.object entries) ∧
      configuration = .ofPairs (entries.map groupEntry) := by
  unfold AliasFile.configuration at h
  split at h
  · cases h
  · cases h
  · next text _ =>
    split at h
    · cases h
    · next json hvalue =>
      cases json with
      | object entries => exact ⟨text, entries, hvalue, (Except.ok.inj h).symm⟩
      | _ => cases h

/-- **The configuration in a file is refused for a flaw**, if at all: what has been read within the
limit of reading is within the limit of recursion. -/
theorem exists_flaw_of_file {known : Aliases} {file : Option (List UInt8)}
    {configuration : Configuration} {refusal : Refusal}
    (hfile : AliasFile.configuration file = .ok configuration)
    (h : known.additions configuration = .error refusal) : ∃ flaw, refusal = .flaw flaw := by
  obtain ⟨text, entries, hvalue, rfl⟩ := exists_entries_of_configuration hfile
  refine exists_flaw_of_refused (within_ofPairs entries) (fun entry hmem value heq => ?_) h
  obtain ⟨member, hmember, rfl⟩ := List.mem_map.1 (mem_ofPairs.1 hmem)
  obtain rfl : member.2 = value := Target.value.inj heq
  cases showable_of_value hvalue with
  | object hmembers =>
    exact (hmembers member (lasting_subset entries hmember)).mono (by decide)

/-- A configuration is accepted exactly if the lasting entries fit. -/
theorem additions_ofPairs_iff {known : Aliases} (hsound : Sound known)
    {entries : List (String × Json)} :
    (∃ fresh, known.additions (.ofPairs (entries.map groupEntry)) = .ok fresh) ↔
      Fits known (lasting entries) := by
  have hwithin := within_ofPairs entries
  simp only [additions, additionsWithin_eq_ok_iff]
  have hadmissible : (∀ entry ∈ Configuration.ofPairs (entries.map groupEntry), Admissible entry) ↔
      ∀ entry ∈ lasting entries, (∃ kind, Names entry.2 kind) ∧
        ∀ word ∈ listedAliases entry.1, SingleWord word := by
    simp only [mem_ofPairs, List.forall_mem_map]
    refine forall₂_congr fun entry _ => ?_
    simp only [Admissible, groupEntry, meant?_value_iff, wordsIn_groupOf, isWord_iff]
  constructor
  · rintro ⟨fresh, hall, -, hconsistent, -⟩
    have hmem {word : String} {kind : Keyword} {entry : String × Json}
        (hentry : entry ∈ lasting entries) (hword : word ∈ listedAliases entry.1)
        (hkind : Names entry.2 kind) :=
      mem_occurrences_ofPairs.2 ⟨entry, hentry, hkind, hword⟩
    have hall := hadmissible.1 hall
    refine ⟨fun entry hentry => (hall entry hentry).1, fun entry hentry => (hall entry hentry).2,
      fun one hone two htwo word hword hword' kind other hkind hother => ?_,
      fun entry hentry word hword kind hkind other hother => ?_,
      fun entry hentry word hword kind hkind other hother => ?_⟩
    · exact hconsistent.together word kind other (hmem hone hword hkind) (hmem htwo hword' hother)
    · have hagrees := hconsistent.before word kind (hmem hentry hword hkind)
      exact ((agrees_base_iff hsound).1 hagrees).1 other hother
    · have hagrees := hconsistent.before word kind (hmem hentry hword hkind)
      exact ((agrees_base_iff hsound).1 hagrees).2 other hother
  · intro hfits
    refine ⟨_,
      hadmissible.2 fun entry hentry => ⟨hfits.named entry hentry, hfits.words entry hentry⟩,
      hwithin, ⟨fun word kind other hkind hother => ?_, fun word kind hkind => ?_⟩, rfl⟩
    · obtain ⟨one, hone, hkind, hword⟩ := mem_occurrences_ofPairs.1 hkind
      obtain ⟨two, htwo, hother, hword'⟩ := mem_occurrences_ofPairs.1 hother
      exact hfits.together one hone two htwo word hword hword' kind other hkind hother
    · obtain ⟨entry, hentry, hkind, hword⟩ := mem_occurrences_ofPairs.1 hkind
      exact (agrees_base_iff hsound).2 ⟨hfits.known entry hentry word hword kind hkind,
        hfits.standard entry hentry word hword kind hkind⟩

theorem configuration_eq {bytes : List UInt8} {text : String} {entries : List (String × Json)}
    (htext : contentsOf bytes = .ok text)
    (hvalue : AliasFile.value text = .ok (.object entries)) :
    AliasFile.configuration (some bytes) = .ok (.ofPairs (entries.map groupEntry)) := by
  rw [AliasFile.configuration, Option.map_some, htext]
  simp only [hvalue, configurationOf]
  rfl

theorem load_eq {known : Aliases} {bytes : List UInt8} {text : String}
    {entries : List (String × Json)} (htext : contentsOf bytes = .ok text)
    (hvalue : AliasFile.value text = .ok (.object entries)) :
    known.load (some bytes) =
      ((known.additions (.ofPairs (entries.map groupEntry))).mapError AliasFileFlaw.ofRefusal).map
        known.union := by
  rw [load, fileAdditions, configuration_eq htext hvalue]

/-! ## Files of names and texts -/

/-- A value, if it is a text. -/
def text? : Json → Option String
  | .string text => some text
  | _ => none

theorem eq_string_of_text? {value : Json} {text : String} (h : text? value = some text) :
    value = .string text := by
  cases value with
  | string other => exact congrArg Json.string (Option.some.inj h)
  | _ => simp [text?] at h

/-- Whether a file holds an object with given names and texts. -/
def reads (text : String) (entries : List (String × String)) : Bool :=
  match AliasFile.value text with
  | .ok (.object members) =>
    members.map (fun member => (member.1, text? member.2)) ==
      entries.map fun entry => (entry.1, some entry.2)
  | _ => false

theorem value_of_reads {text : String} {entries : List (String × String)}
    (h : reads text entries = true) :
    AliasFile.value text = .ok (.object (entries.map fun entry => (entry.1, .string entry.2))) := by
  have hmembers (members : List (String × Json)) (entries : List (String × String))
      (h : members.map (fun member => (member.1, text? member.2)) =
        entries.map fun entry => (entry.1, some entry.2)) :
      members = entries.map fun entry => (entry.1, .string entry.2) := by
    induction members generalizing entries with
    | nil => rw [List.map_eq_nil_iff.1 h.symm]; rfl
    | cons member members ih =>
      obtain _ | ⟨entry, entries⟩ := entries
      · simp at h
      · obtain ⟨hfirst, hrest⟩ := List.cons.inj h
        obtain ⟨hname, htext⟩ := Prod.mk.inj hfirst
        rw [ih entries hrest, List.map_cons, ← hname, ← eq_string_of_text? htext]
  unfold reads at h
  split at h
  next members hvalue => rw [hvalue, hmembers members entries (beq_iff_eq.1 h)]
  next => simp at h

end AliasFile

namespace Aliases

open AliasFile

/-- **An alias file is accepted exactly if its lasting entries fit**, whatever has been requested
before; and where no two of its names list the same aliases, exactly if all of its entries do.
Otherwise it is refused for its aliases. -/
theorem load_accepts_iff (requests : List Request) {bytes : List UInt8} {text : String}
    {entries : List (String × Json)} (htext : contentsOf bytes = .ok text)
    (hvalue : AliasFile.value text = .ok (.object entries)) :
    ((∃ next, (history requests).load (some bytes) = .ok next) ↔
      Fits (history requests) (lasting entries)) ∧
    ((entries.map fun entry => listedAliases entry.1).Nodup →
      ((∃ next, (history requests).load (some bytes) = .ok next) ↔
        Fits (history requests) entries)) ∧
    (¬ Fits (history requests) (lasting entries) →
      ∃ flaw, (history requests).load (some bytes) = .error (.aliases flaw)) := by
  have hfits : (∃ fresh, _) ↔ Fits (history requests) (lasting entries) :=
    additions_ofPairs_iff (sound_history requests)
  have haccepts : (∃ next, (history requests).load (some bytes) = .ok next) ↔
      Fits (history requests) (lasting entries) := by
    rw [← hfits, load_eq htext hvalue]
    cases (history requests).additions (.ofPairs (entries.map groupEntry)) <;>
      simp [Except.map, Except.mapError]
  refine ⟨haccepts, fun hdistinct => ?_, fun hnot => ?_⟩
  · rw [haccepts, lasting_eq_self hdistinct]
  · rw [load_eq htext hvalue]
    cases hresult : (history requests).additions (.ofPairs (entries.map groupEntry)) with
    | ok fresh => exact absurd (hfits.1 ⟨fresh, hresult⟩) hnot
    | error refusal =>
      obtain ⟨flaw, rfl⟩ := exists_flaw_of_file (configuration_eq htext hvalue) hresult
      exact ⟨flaw, rfl⟩

/-- A file that gives a known alias its kind again, and new ones, with blanks in the names. -/
def spacedFile : String := "\x7b\"si , wenn\": \"IF\", \" mentre\": \"WHILE\"\x7d"

theorem load_spacedFile :
    contentsOf spacedFile.toUTF8.toList = .ok spacedFile ∧
    AliasFile.value spacedFile =
      .ok (.object [("si , wenn", .string "IF"), (" mentre", .string "WHILE")]) ∧
    (history [.configure [(.string "si", .value (.string "IF"))]]).load
      (some spacedFile.toUTF8.toList) =
        .ok ⟨[("si", .ifWord), ("wenn", .ifWord), ("mentre", .whileWord)]⟩ ∧
    Fits (history [.configure [(.string "si", .value (.string "IF"))]])
      [("si , wenn", .string "IF"), (" mentre", .string "WHILE")] := by
  have htext : contentsOf spacedFile.toUTF8.toList = .ok spacedFile := by cbv
  have hreads : reads spacedFile [("si , wenn", "IF"), (" mentre", "WHILE")] = true := by
    decide +kernel
  have hvalue := value_of_reads hreads
  have hload : (history [.configure [(.string "si", .value (.string "IF"))]]).load
      (some spacedFile.toUTF8.toList) =
        .ok ⟨[("si", .ifWord), ("wenn", .ifWord), ("mentre", .whileWord)]⟩ := by
    rw [load_eq htext hvalue]
    cbv
  have haccepts := load_accepts_iff [.configure [(.string "si", .value (.string "IF"))]] htext
    hvalue
  exact ⟨htext, hvalue, hload, (haccepts.2.1 (by decide +kernel)).1 ⟨_, hload⟩⟩

/-- Two names that list the same aliases, for different kinds. -/
def overriddenFile : String := "\x7b\"si,wenn\": \"IF\", \"si, wenn\": \"WHILE\"\x7d"

/-- **An entry can be lost**: of two entries that list the same aliases for different kinds, the
first one has no effect, and the file is accepted although its entries do not fit. -/
theorem overridden_accepted :
    ∃ entries, contentsOf overriddenFile.toUTF8.toList = .ok overriddenFile ∧
      AliasFile.value overriddenFile = .ok (.object entries) ∧
      (entries.map Prod.fst).Nodup ∧ ¬ Fits (history []) entries ∧
      (history []).load (some overriddenFile.toUTF8.toList) =
        .ok ⟨[("si", .whileWord), ("wenn", .whileWord)]⟩ := by
  have htext : contentsOf overriddenFile.toUTF8.toList = .ok overriddenFile := by cbv
  have hreads : reads overriddenFile [("si,wenn", "IF"), ("si, wenn", "WHILE")] = true := by
    decide +kernel
  have hvalue := value_of_reads hreads
  refine ⟨_, htext, hvalue, by decide, fun hfits => ?_, ?_⟩
  · have hone : "si" ∈ listedAliases "si,wenn" := by decide +kernel
    have htwo : "si" ∈ listedAliases "si, wenn" := by decide +kernel
    have heq := hfits.together ("si,wenn", .string "IF") (by simp) ("si, wenn", .string "WHILE")
      (by simp) "si" hone htwo .ifWord .whileWord ⟨"IF", rfl, by decide⟩ ⟨"WHILE", rfl, by decide⟩
    exact absurd heq (by decide)
  · rw [load_eq htext hvalue]
    cbv

end Aliases

end ScriptFrontend
