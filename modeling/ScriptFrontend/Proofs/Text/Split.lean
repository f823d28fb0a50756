import Mathlib
import ScriptFrontend.Text.Split

/-!
# Proofs/Text/Split — parts of a text, taken apart and joined

A mark parts what is in front of it from what is behind (`splitCharsAround_append`), and where no
mark is nothing is parted.  So parts without the mark that are joined by it are found again
(`splitAround_intercalate`).
-/

namespace ScriptFrontend

theorem splitCharsAround_ne_nil (mark : Char) (text : List Char) :
    splitCharsAround mark text ≠ [] := by
  intro hnil
  have hlength := length_splitCharsAround mark text
  rw [hnil] at hlength
  cases hlength

/-- A mark parts what is in front of it from what is behind. -/
theorem splitCharsAround_append (mark : Char) (front rest : List Char) :
    splitCharsAround mark (front ++ mark :: rest) =
      splitCharsAround mark front ++ splitCharsAround mark rest := by
  induction front with
  | nil => simp [splitCharsAround]
  | cons c front ih =>
    rw [List.cons_append, splitCharsAround, splitCharsAround, ih]
    split
    next => rfl
    next =>
      obtain ⟨part, parts, heq⟩ :=
        List.exists_cons_of_ne_nil (splitCharsAround_ne_nil mark front)
      rw [heq]
      rfl

/-- The first part starts with what stands in front of the first mark. -/
theorem splitCharsAround_unmarked {mark : Char} {front : List Char} (h : mark ∉ front)
    (rest : List Char) :
    ∃ part parts, splitCharsAround mark (front ++ rest) = (front ++ part) :: parts := by
  induction front with
  | nil => exact List.exists_cons_of_ne_nil (splitCharsAround_ne_nil mark rest)
  | cons c front ih =>
    rw [List.mem_cons, not_or] at h
    obtain ⟨part, parts, heq⟩ := ih h.2
    exact ⟨part, parts, by rw [List.cons_append, splitCharsAround, if_neg (Ne.symm h.1), heq]; rfl⟩

/-- A text without the mark is its own only part. -/
theorem splitCharsAround_of_not_mem {mark : Char} {text : List Char} (h : mark ∉ text) :
    splitCharsAround mark text = [text] := by
  induction text with
  | nil => rfl
  | cons c text ih =>
    rw [List.mem_cons, not_or] at h
    rw [splitCharsAround, if_neg (Ne.symm h.1), ih h.2]
    rfl

/-- Parts that are joined by a mark, and have none in them, are found again. -/
theorem splitCharsAround_intercalate {mark : Char} {parts : List (List Char)} (hne : parts ≠ [])
    (h : ∀ part ∈ parts, mark ∉ part) :
    splitCharsAround mark ([mark].intercalate parts) = parts := by
  induction parts with
  | nil => exact absurd rfl hne
  | cons part parts ih =>
    obtain ⟨hpart, hparts⟩ := List.forall_mem_cons.1 h
    rcases parts with _ | ⟨next, parts⟩
    · rw [List.intercalate_singleton, splitCharsAround_of_not_mem hpart]
    · rw [List.intercalate_cons_cons, List.append_assoc, List.singleton_append,
        splitCharsAround_append, splitCharsAround_of_not_mem hpart, ih (by simp) hparts,
        List.singleton_append]

/-- **Texts that are joined by a mark** are the parts between the marks, if no text has one. -/
theorem splitAround_intercalate {mark : Char} {texts : List String} (hne : texts ≠ [])
    (h : ∀ text ∈ texts, mark ∉ text.toList) :
    splitAround mark ((String.singleton mark).intercalate texts) = texts := by
  have hparts : splitCharsAround mark ([mark].intercalate (texts.map String.toList)) =
      texts.map String.toList :=
    splitCharsAround_intercalate (by simpa using hne) (by simpa using h)
  rw [splitAround, String.toList_intercalate, String.toList_singleton, hparts, List.map_map]
  simp [Function.comp_def]

end ScriptFrontend
