import ScriptFrontend.Proofs.Alias.Coherent

/-!
# Proofs/Alias/Order — neither the order of configurations nor their grouping matters

    Granted one after the other ──▸ all entries together are coherent ◂── granted as one mapping

Configurations are `Granted` if each of them is in its turn, with what the ones before it have made
known.  They are exactly if all their entries together are coherent with the aliases known at first
and all groups within the limit (`granted_iff_coherent`), and then exactly the aliases that some entry gives have become known
(`kind?_afterAll_iff`).  Both conditions ask only which entries there are.

So the order of the configurations is of no account, and neither is whether they are requested one
by one or as one mapping of all entries, where that is a mapping (`configurations_in_any_order`).
-/

namespace ScriptFrontend

/-! ## Mappings

No two groups of a mapping are the same key; a mapping is what it is built from. -/

theorem Binary64.numericallyEqual_comm (x y : Binary64) :
    x.numericallyEqual y = y.numericallyEqual x := by
  rw [Bool.eq_iff_iff]
  cases x <;> cases y <;> simp [numericallyEqual] <;> grind

/-- Being the same key goes both ways. -/
theorem Json.sameKey_comm : ∀ a b : Json, a.sameKey b = b.sameKey a
  | .array (a :: as), .array (b :: bs) => by
    rw [sameKey, sameKey, sameKey_comm a b, sameKey_comm (.array as) (.array bs)]
  | .float x, .float y => by rw [sameKey, sameKey, Binary64.numericallyEqual_comm]
  | .array [], .array bs => by cases bs <;> simp [sameKey, integer?]
  | .array (_ :: _), .array [] => by simp [sameKey, integer?]
  | .null, b | .bool _, b | .int _, b | .string _, b | .object _, b => by
    cases b <;> simp [sameKey, integer?, Bool.beq_comm]
  | .float _, .null | .float _, .bool _ | .float _, .int _ | .float _, .string _
  | .float _, .array _ | .float _, .object _ => by simp [sameKey]
  | .array _, .null | .array _, .bool _ | .array _, .int _ | .array _, .string _
  | .array _, .float _ | .array _, .object _ => by simp [sameKey, integer?]

namespace Configuration

/-- The groups of two entries are different keys. -/
def Apart (one two : Json × Target) : Prop := one.1.sameKey two.1 = false

/-- **A configuration is a mapping** if no two of its groups are the same key. -/
def IsMapping (configuration : Configuration) : Prop := configuration.Pairwise Apart

theorem Apart.symm {one two : Json × Target} (h : Apart one two) : Apart two one := by
  rw [Apart, Json.sameKey_comm]
  exact h

theorem IsMapping.perm {configuration other : Configuration} (h : IsMapping configuration)
    (hperm : other.Perm configuration) : IsMapping other :=
  (hperm.pairwise_iff Apart.symm).2 h

/-- A group that is not there yet goes to the end. -/
theorem put_of_apart {group : Json} {target : Target} :
    ∀ {configuration : Configuration}, (∀ entry ∈ configuration, Apart entry (group, target)) →
      configuration.put group target = configuration ++ [(group, target)]
  | [], _ => rfl
  | entry :: rest, h => by
    obtain ⟨hfirst, hrest⟩ := List.forall_mem_cons.1 h
    rw [put, if_neg (by simpa [Apart] using hfirst), put_of_apart hrest, List.cons_append]

theorem foldl_put_of_apart :
    ∀ {pairs configuration : Configuration}, IsMapping (configuration ++ pairs) →
      pairs.foldl (fun configuration pair => configuration.put pair.1 pair.2) configuration =
        configuration ++ pairs
  | [], configuration, _ => (List.append_nil configuration).symm
  | pair :: pairs, configuration, h => by
    have hfront : ∀ entry ∈ configuration, Apart entry pair := fun entry hentry =>
      (List.pairwise_append.1 h).2.2 entry hentry pair List.mem_cons_self
    rw [List.append_cons] at h ⊢
    rw [List.foldl_cons, put_of_apart hfront, foldl_put_of_apart h]

/-- **A mapping consists of the entries that it is built from.** -/
theorem IsMapping.ofPairs_eq {configuration : Configuration} (h : IsMapping configuration) :
    ofPairs configuration = configuration := by
  rw [ofPairs, foldl_put_of_apart, List.nil_append]
  exact h

/-- The entries of mappings that share no group are a mapping. -/
theorem isMapping_flatten {configurations : List Configuration}
    (hmapping : ∀ configuration ∈ configurations, IsMapping configuration)
    (hapart : configurations.Pairwise fun one two => ∀ a ∈ one, ∀ b ∈ two, Apart a b) :
    IsMapping configurations.flatten :=
  List.pairwise_flatten.2 ⟨hmapping, hapart⟩

/-! ## What several configurations say together -/

variable {configuration other : Configuration} {word : String} {kind : Keyword}

theorem Gives.mono (h : configuration.Gives word kind) (hsub : configuration ⊆ other) :
    other.Gives word kind := by
  obtain ⟨entry, hentry, hgives⟩ := h
  exact ⟨entry, hsub hentry, hgives⟩

theorem gives_append_iff :
    (configuration ++ other).Gives word kind ↔
      configuration.Gives word kind ∨ other.Gives word kind := by
  simp only [Gives, List.mem_append, or_and_right, exists_or]

theorem within_append_iff {limit : Nat} :
    Within limit (configuration ++ other) ↔ configuration.Within limit ∧ other.Within limit :=
  List.forall_mem_append

end Configuration

namespace Aliases

variable {known : Aliases} {configuration front back : Configuration} {word : String}
  {kind : Keyword}

/-- Part of a coherent configuration is coherent. -/
theorem Coherent.mono (h : Coherent known configuration) (hsub : front ⊆ configuration) :
    Coherent known front where
  reserved entry hentry := h.reserved entry (hsub hentry)
  words entry hentry := h.words entry (hsub hentry)
  together word kind other hkind hother :=
    h.together word kind other (hkind.mono hsub) (hother.mono hsub)
  known word kind hgives := h.known word kind (hgives.mono hsub)
  standard word kind hgives := h.standard word kind (hgives.mono hsub)

theorem after_of_granted {next : Aliases} (h : known.configure configuration = .ok next) :
    known.after (.configure configuration) = next := by
  rw [after, answer, h]
  rfl

/-- **What a coherent configuration makes known** is what it gives. -/
theorem kind?_after_configure_iff (hsound : Sound known) (h : Coherent known configuration)
    (hwithin : configuration.Within Json.recursionLimit) :
    (known.after (.configure configuration)).kind? word = some kind ↔
      known.kind? word = some kind ∨ configuration.Gives word kind := by
  obtain ⟨next, hnext⟩ := (configureWithin_iff_coherent hsound).2 ⟨h, hwithin⟩
  rw [after_of_granted hnext]
  constructor
  · intro hkind
    -- a word that is given has only the kind that is given, and any other one is as before
    by_cases hgives : ∃ given, configuration.Gives word given
    · obtain ⟨given, hgiven⟩ := hgives
      obtain rfl : given = kind :=
        Option.some.inj ((kind?_of_gives h hnext hgiven).symm.trans hkind)
      exact .inr hgiven
    · rw [kind?_of_not_gives hnext (not_exists.1 hgives)] at hkind
      exact .inl hkind
  · rintro (hknown | hgives)
    · exact kind?_of_configure hnext hknown
    · exact kind?_of_gives h hnext hgives

/-- What is behind a configuration has to agree with what that makes known. -/
theorem Coherent.behind (hsound : Sound known) (hwithin : front.Within Json.recursionLimit)
    (h : Coherent known (front ++ back)) : Coherent (known.after (.configure front)) back := by
  have hfront : Coherent known front := h.mono (List.subset_append_left _ _)
  have hback : Coherent known back := h.mono (List.subset_append_right _ _)
  refine { hback with known := fun word kind hgives old hold => ?_ }
  obtain hknown | hgiven := (kind?_after_configure_iff hsound hfront hwithin).1 hold
  · exact hback.known word kind hgives old hknown
  · exact h.together word kind old (Configuration.gives_append_iff.2 (.inr hgives))
      (Configuration.gives_append_iff.2 (.inl hgiven))

theorem Coherent.append (hsound : Sound known) (hwithin : front.Within Json.recursionLimit)
    (hfront : Coherent known front) (hback : Coherent (known.after (.configure front)) back) :
    Coherent known (front ++ back) := by
  -- what the front gives is known to the back
  have hcross {word kind other} (hgives : front.Gives word kind) (hother : back.Gives word other) :
      kind = other :=
    hback.known word other hother kind
      ((kind?_after_configure_iff hsound hfront hwithin).2 (.inr hgives))
  constructor
  · exact List.forall_mem_append.2 ⟨hfront.reserved, hback.reserved⟩
  · exact List.forall_mem_append.2 ⟨hfront.words, hback.words⟩
  · intro word kind other hkind hother
    obtain hkind | hkind := Configuration.gives_append_iff.1 hkind <;>
      obtain hother | hother := Configuration.gives_append_iff.1 hother
    · exact hfront.together word kind other hkind hother
    · exact (hcross hkind hother).symm
    · exact hcross hother hkind
    · exact hback.together word kind other hkind hother
  · intro word kind hgives old hold
    obtain hgives | hgives := Configuration.gives_append_iff.1 hgives
    · exact hfront.known word kind hgives old hold
    · exact hback.known word kind hgives old
        ((kind?_after_configure_iff hsound hfront hwithin).2 (.inl hold))
  · intro word kind hgives
    obtain hgives | hgives := Configuration.gives_append_iff.1 hgives
    · exact hfront.standard word kind hgives
    · exact hback.standard word kind hgives

/-! ## One configuration after the other -/

/-- The aliases after some configurations, each of them granted or refused. -/
def afterAll (known : Aliases) (configurations : List Configuration) : Aliases :=
  (configurations.map Request.configure).foldl after known

/-- **Every one of some configurations is granted**, in its turn. -/
def Granted (known : Aliases) : List Configuration → Prop
  | [] => True
  | configuration :: rest =>
    (∃ next, known.configure configuration = .ok next) ∧
      Granted (known.after (.configure configuration)) rest

theorem coherent_nil (known : Aliases) : Coherent known [] := by
  constructor <;> simp [Configuration.Gives]

/-- **Configurations are granted exactly if all their entries together are coherent** and within
the limit. -/
theorem granted_iff_coherent {configurations : List Configuration} (hsound : Sound known) :
    Granted known configurations ↔ Coherent known configurations.flatten ∧
      Configuration.Within Json.recursionLimit configurations.flatten := by
  induction configurations generalizing known with
  | nil => exact iff_of_true trivial ⟨coherent_nil known, by simp [Configuration.Within]⟩
  | cons configuration rest ih =>
    have hfirst : (∃ next, known.configure configuration = .ok next) ↔
        Coherent known configuration ∧ configuration.Within Json.recursionLimit :=
      configureWithin_iff_coherent hsound
    rw [Granted, hfirst, ih (sound_after hsound _), List.flatten_cons,
      Configuration.within_append_iff]
    constructor
    · rintro ⟨⟨hfront, hwithin⟩, hback, hrest⟩
      exact ⟨hfront.append hsound hwithin hback, hwithin, hrest⟩
    · rintro ⟨hboth, hwithin, hrest⟩
      exact ⟨⟨hboth.mono (List.subset_append_left _ _), hwithin⟩,
        hboth.behind hsound hwithin, hrest⟩

/-- **What granted configurations make known** is what some entry gives. -/
theorem kind?_afterAll_iff {configurations : List Configuration} (hsound : Sound known)
    (h : Granted known configurations) :
    (known.afterAll configurations).kind? word = some kind ↔
      known.kind? word = some kind ∨ Configuration.Gives configurations.flatten word kind := by
  induction configurations generalizing known with
  | nil => simp [afterAll, Configuration.Gives]
  | cons configuration rest ih =>
    obtain ⟨hfirst, hrest⟩ := h
    obtain ⟨hcoherent, hwithin⟩ := (configureWithin_iff_coherent hsound).1 hfirst
    have hlater := ih (sound_after hsound _) hrest
    rw [kind?_after_configure_iff hsound hcoherent hwithin] at hlater
    rw [List.flatten_cons, Configuration.gives_append_iff, ← or_assoc]
    exact hlater

theorem history_configurations (requests : List Request) (configurations : List Configuration) :
    history (requests ++ configurations.map .configure) =
      (history requests).afterAll configurations := history_append _ _

/-! ## Any order -/

/-- **Aliases say the same** if they and the vocabularies with them do so of every word. -/
structure Alike (one two : Aliases) : Prop where
  known : ∀ word, one.kind? word = two.kind? word
  vocabulary : ∀ word, one.vocabulary.kind? word = two.vocabulary.kind? word

theorem Alike.of_known {one two : Aliases}
    (h : ∀ word kind, one.kind? word = some kind ↔ two.kind? word = some kind) :
    Alike one two := by
  have hknown (word : String) : one.kind? word = two.kind? word := Option.ext (h word)
  refine ⟨hknown, fun word => ?_⟩
  rw [kind?_vocabulary, kind?_vocabulary, base, base, hknown]

/-- Configurations with the same entries are granted together. -/
theorem granted_of_perm {configurations others : List Configuration} (hsound : Sound known)
    (hperm : others.flatten.Perm configurations.flatten) (h : Granted known configurations) :
    Granted known others := by
  obtain ⟨hcoherent, hwithin⟩ := (granted_iff_coherent hsound).1 h
  exact (granted_iff_coherent hsound).2
    ⟨hcoherent.mono hperm.subset, fun entry hentry => hwithin entry (hperm.subset hentry)⟩

/-- Granted configurations with the same entries make the same known. -/
theorem alike_of_perm {configurations others : List Configuration} (hsound : Sound known)
    (hperm : others.flatten.Perm configurations.flatten) (h : Granted known configurations) :
    Alike (known.afterAll others) (known.afterAll configurations) := by
  have hothers := granted_of_perm hsound hperm h
  refine .of_known fun word kind => ?_
  rw [kind?_afterAll_iff hsound h, kind?_afterAll_iff hsound hothers]
  exact or_congr_right ⟨fun hgives => hgives.mono hperm.subset,
    fun hgives => hgives.mono hperm.symm.subset⟩

/-- **Neither the order of configurations nor their grouping matters**, whatever has been requested
before.  They are granted one after the other in one order exactly if they are in any other, and
then the aliases and the vocabularies at the end say the same.  Where they are mappings that share
no group, the same holds of the one mapping that has all their entries, in any order. -/
theorem configurations_in_any_order (requests : List Request)
    {configurations others : List Configuration} (hothers : others.Perm configurations) :
    (Granted (history requests) others ↔ Granted (history requests) configurations) ∧
    (Granted (history requests) configurations →
      Alike (history (requests ++ others.map .configure))
        (history (requests ++ configurations.map .configure))) ∧
    ∀ merged : Configuration, merged.Perm configurations.flatten →
      (∀ configuration ∈ configurations, configuration.IsMapping) →
      (configurations.Pairwise fun one two => ∀ a ∈ one, ∀ b ∈ two, Configuration.Apart a b) →
      (Granted (history requests) [.ofPairs merged] ↔
        Granted (history requests) configurations) ∧
      (Granted (history requests) configurations →
        Alike (history (requests ++ [.configure (.ofPairs merged)]))
          (history (requests ++ configurations.map .configure))) := by
  have hsound := sound_history requests
  have hflatten : others.flatten.Perm configurations.flatten := hothers.flatten
  refine ⟨⟨granted_of_perm hsound hflatten.symm, granted_of_perm hsound hflatten⟩, fun h => ?_,
    fun merged hmerged hmapping hapart => ?_⟩
  · rw [history_configurations, history_configurations]
    exact alike_of_perm hsound hflatten h
  · have hwhole := Configuration.isMapping_flatten hmapping hapart
    have hone : ([merged] : List Configuration).flatten.Perm configurations.flatten := by
      rwa [List.flatten_singleton]
    rw [(hwhole.perm hmerged).ofPairs_eq]
    refine ⟨⟨granted_of_perm hsound hone.symm, granted_of_perm hsound hone⟩, fun h => ?_⟩
    rw [history_configurations]
    exact history_configurations requests [merged] ▸ alike_of_perm hsound hone h

/-- Two mappings that give an alias the same kind, one of them in a group. -/
def agreeing : List Configuration := [
  [(.string "si", .value (.string "IF"))],
  [(.array [.string "wenn", .string "si"], .kind (.keyword .ifWord)),
    (.null, .value (.string "ELSE"))]]

theorem configurations_agreeing :
    agreeing.reverse.Perm agreeing ∧ agreeing.flatten.reverse.Perm agreeing.flatten ∧
    Granted (history []) agreeing ∧ Granted (history []) agreeing.reverse ∧
    Granted (history []) [.ofPairs agreeing.flatten.reverse] ∧
    Alike (history ([] ++ agreeing.reverse.map .configure))
      (history ([] ++ agreeing.map .configure)) ∧
    Alike (history ([] ++ [.configure (.ofPairs agreeing.flatten.reverse)]))
      (history ([] ++ agreeing.map .configure)) := by
  have horders := configurations_in_any_order [] agreeing.reverse_perm
  have hmapping : ∀ configuration ∈ agreeing, configuration.IsMapping := by
    simp [agreeing, Configuration.IsMapping, Configuration.Apart, Json.sameKey, Json.integer?]
  have hapart : agreeing.Pairwise fun one two => ∀ a ∈ one, ∀ b ∈ two, Configuration.Apart a b := by
    simp [agreeing, Configuration.Apart, Json.sameKey, Json.integer?, or_imp, forall_and]
  have hmerged := horders.2.2 agreeing.flatten.reverse (List.reverse_perm _) hmapping hapart
  have hgranted : Granted (history []) agreeing := by
    refine ⟨⟨⟨[("si", .ifWord)]⟩, ?_⟩, ⟨⟨[("si", .ifWord), ("wenn", .ifWord)]⟩, ?_⟩, trivial⟩
    · cbv
    · cbv
  exact ⟨List.reverse_perm _, List.reverse_perm _, hgranted, horders.1.2 hgranted,
    hmerged.1.2 hgranted, horders.2.1 hgranted, hmerged.2 hgranted⟩

end Aliases

end ScriptFrontend
