import ScriptFrontend.Proofs.Alias.File
import ScriptFrontend.Proofs.Text.Utf8

/-!
# Proofs/Alias/Loading — the ways in which loading a file ends

A file is loaded, or refused for its aliases, or it cannot be read: its bytes are those of no text,
or what the text holds as JSON is not found within the limits (`AliasFile.Unreadable`).  The
configuration of a file that can be read is refused for its aliases if at all
(`configuration_readable`), and that of an unreadable one never is (`configuration_unreadable`).

Loaded into no aliases, a file leads to what it adds (`Aliases.load_empty`).
-/

namespace ScriptFrontend

theorem contentsOf_eq_ok_iff {bytes : List UInt8} {text : String} :
    contentsOf bytes = .ok text ↔
      ∃ content : String, bytes = content.toUTF8.toList ∧ unifyLineEnds content = text := by
  simp only [← Utf8.decode_eq_ok_iff, contentsOf]
  cases Utf8.decode bytes <;> simp [Except.map]

theorem contentsOf_eq_error {bytes : List UInt8} {flaw : Utf8.Flaw}
    (h : contentsOf bytes = .error flaw) (text : String) : bytes ≠ text.toUTF8.toList := by
  intro heq
  rw [contentsOf_eq_ok_iff.2 ⟨text, heq, rfl⟩] at h
  cases h

namespace AliasFile

/-! ## Files that cannot be read -/

/-- The limits within which an alias file is read. -/
def limits : Json.Limits := ⟨nestingLimit, Json.longestInteger⟩

/-- **A file that cannot be read.** -/
inductive Unreadable (bytes : List UInt8) : Prop where
  /-- The bytes are those of no text. -/
  | noText (h : ∀ text : String, bytes ≠ text.toUTF8.toList)
  /-- What the text holds is not found within the limits. -/
  | limit {text : String} (h : bytes = text.toUTF8.toList)
    (hlimit : Json.readWithin limits (unifyLineEnds text) ≠ Json.readFully (unifyLineEnds text))

theorem unreadable_iff {bytes : List UInt8} {text : String} (h : contentsOf bytes = .ok text) :
    Unreadable bytes ↔
      ∃ flaw, flaw ≠ .malformed ∧ Json.read nestingLimit text = .error flaw := by
  obtain ⟨content, hbytes, rfl⟩ := contentsOf_eq_ok_iff.1 h
  rw [show Json.read nestingLimit _ = Json.readWithin limits _ from rfl, ← Json.readWithin_ne_iff]
  constructor
  · rintro (hnone | ⟨heq, hlimit⟩)
    · exact absurd hbytes (hnone content)
    · have hsame := contentsOf_eq_ok_iff.2 ⟨_, heq, rfl⟩
      rwa [← Except.ok.inj (hsame.symm.trans h)]
  · exact .limit hbytes

/-- **The configuration of an unreadable file** is refused, but not for its aliases. -/
theorem configuration_unreadable {bytes : List UInt8} (h : Unreadable bytes) :
    ∃ flaw, configuration (some bytes) = .error flaw ∧ ∀ aliases, flaw ≠ .aliases aliases := by
  rcases hcontents : contentsOf bytes with flaw | text
  · exact ⟨.encoding flaw, by rw [configuration, Option.map_some, hcontents], by simp⟩
  · obtain ⟨flaw, hne, hread⟩ := (unreadable_iff hcontents).1 h
    cases flaw with
    | malformed => exact absurd rfl hne
    | tooDeep =>
      exact ⟨.tooDeep,
        by rw [configuration, Option.map_some, hcontents]; simp [value, hread], by simp⟩
    | longInteger digits =>
      exact ⟨.longInteger digits,
        by rw [configuration, Option.map_some, hcontents]; simp [value, hread], by simp⟩

/-- **The configuration of a file that can be read** is there, or refused for the aliases. -/
theorem configuration_readable {bytes : List UInt8} (h : ¬ Unreadable bytes) :
    (∃ entries, configuration (some bytes) = .ok entries) ∨
      ∃ flaw, configuration (some bytes) = .error (.aliases flaw) := by
  rcases hcontents : contentsOf bytes with flaw | text
  · exact absurd (.noText (contentsOf_eq_error hcontents)) h
  rw [unreadable_iff hcontents] at h
  rw [configuration, Option.map_some, hcontents]
  rcases hread : Json.read nestingLimit text with flaw | json
  · obtain rfl : flaw = .malformed := Decidable.not_not.1 fun hne => h ⟨flaw, hne, hread⟩
    exact .inr ⟨.unreadable, by simp [value, hread]⟩
  · simp only [value, hread]
    cases json with
    | object members => exact .inl ⟨_, rfl⟩
    | _ => exact .inr ⟨.notObject, rfl⟩

/-- The configuration of a file that is nested too deeply. -/
theorem configuration_tooDeep_iff {bytes : List UInt8} :
    configuration (some bytes) = .error .tooDeep ↔
      ∃ text, contentsOf bytes = .ok text ∧ Json.read nestingLimit text = .error .tooDeep := by
  rw [configuration, Option.map_some]
  rcases contentsOf bytes with flaw | text
  · simp
  · simp only [Except.ok.injEq, exists_eq_left', value]
    rcases Json.read nestingLimit text with flaw | json
    · cases flaw <;> simp
    · simp only [reduceCtorEq, iff_false]
      cases json <;> rintro ⟨⟩

end AliasFile

namespace Aliases

open AliasFile

variable {known fresh : Aliases}

/-! ## Loading -/

theorem fileAdditions_unreadable (known : Aliases) {bytes : List UInt8} (h : Unreadable bytes) :
    ∃ flaw, known.fileAdditions (some bytes) = .error flaw ∧
      ∀ aliases, flaw ≠ .aliases aliases := by
  obtain ⟨flaw, hconfiguration, hne⟩ := configuration_unreadable h
  exact ⟨flaw, by rw [fileAdditions, hconfiguration], hne⟩

/-- Only an unreadable file is refused for anything but its aliases. -/
theorem fileAdditions_readable (known : Aliases) {file : Option (List UInt8)}
    (h : ∀ bytes ∈ file, ¬ Unreadable bytes) :
    (∃ fresh, known.fileAdditions file = .ok fresh) ∨
      ∃ flaw, known.fileAdditions file = .error (.aliases flaw) := by
  cases file with
  | none => exact .inr ⟨.unreadable, rfl⟩
  | some bytes =>
    rw [fileAdditions]
    rcases configuration_readable (h bytes rfl) with ⟨entries, heq⟩ | ⟨flaw, heq⟩
    · rw [heq]
      dsimp only
      cases hresult : known.additions entries with
      | ok fresh => exact .inl ⟨fresh, rfl⟩
      | error refusal =>
        obtain ⟨flaw, rfl⟩ := exists_flaw_of_file heq hresult
        exact .inr ⟨flaw, rfl⟩
    · rw [heq]
      exact .inr ⟨flaw, rfl⟩

theorem fileAdditions_tooDeep_iff {bytes : List UInt8} :
    known.fileAdditions (some bytes) = .error .tooDeep ↔
      ∃ content : String, bytes = content.toUTF8.toList ∧
        Json.read AliasFile.nestingLimit (unifyLineEnds content) = .error .tooDeep := by
  have hcontents : (∃ text, contentsOf bytes = .ok text ∧
        Json.read AliasFile.nestingLimit text = .error .tooDeep) ↔
      ∃ content : String, bytes = content.toUTF8.toList ∧
        Json.read AliasFile.nestingLimit (unifyLineEnds content) = .error .tooDeep := by
    simp only [contentsOf_eq_ok_iff]
    constructor
    · rintro ⟨_, ⟨content, hbytes, rfl⟩, hread⟩
      exact ⟨content, hbytes, hread⟩
    · rintro ⟨content, hbytes, hread⟩
      exact ⟨_, ⟨content, hbytes, rfl⟩, hread⟩
  rw [← hcontents, ← configuration_tooDeep_iff, fileAdditions]
  rcases hfile : AliasFile.configuration (some bytes) with flaw | entries
  · simp only [Except.error.injEq]
  · simp only [reduceCtorEq, iff_false]
    cases hresult : known.additions entries with
    | ok fresh => simp [Except.mapError]
    | error refusal =>
      obtain ⟨flaw, rfl⟩ := exists_flaw_of_file hfile hresult
      simp [Except.mapError, AliasFileFlaw.ofRefusal]

/-- Aliases that are all new are added behind the known ones. -/
theorem entries_union (h : (known.entries ++ fresh.entries).map Prod.fst |>.Nodup) :
    known.union fresh = ⟨known.entries ++ fresh.entries⟩ := by
  obtain ⟨entries⟩ := fresh
  simp only [union]
  induction entries generalizing known with
  | nil => exact congrArg Aliases.mk (List.append_nil _).symm
  | cons entry rest ih =>
    have hnew : known.kind? entry.1 = none := by
      refine kind?_eq_none_iff.2 fun hmem => ?_
      rw [List.map_append, List.nodup_append] at h
      exact h.2.2 _ hmem _ List.mem_cons_self rfl
    have hadd : known.add entry.1 entry.2 = ⟨known.entries ++ [entry]⟩ := by
      rw [add, hnew]
      rfl
    rw [List.foldl_cons, hadd, ih (by simpa using h)]
    simp

/-- **Loading a file into no aliases** leads to what the file adds. -/
theorem load_empty (file : Option (List UInt8)) : empty.load file = empty.fileAdditions file := by
  rw [load]
  rcases hfile : empty.fileAdditions file with flaw | fresh
  · rfl
  · have hlisted : WellListed fresh := by
      rw [fileAdditions] at hfile
      rcases hconfiguration : AliasFile.configuration file with flaw | entries
      · rw [hconfiguration] at hfile
        cases hfile
      · rw [hconfiguration] at hfile
        exact wellListed_of_additions (mapError_eq_ok_iff.1 hfile)
    exact congrArg Except.ok (entries_union (by simpa [empty] using hlisted.2))

end Aliases

end ScriptFrontend
