import ScriptFrontend.Text.LineEnds

/-!
# Proofs/Text/LineEnds — texts whose carriage returns stand in front of newlines

In a **paired** text every carriage return stands in front of a newline.  Unifying the line ends of
such a text takes all of them out and does nothing else (`unifyLineEnds_ofList`).
-/

namespace ScriptFrontend

/-- **Every carriage return stands in front of a newline.** -/
def Paired : List Char → Prop
  | [] => True
  | c :: rest => (c = '\r' → rest.head? = some '\n') ∧ Paired rest

/-- A text without its carriage returns. -/
def dropReturns (text : List Char) : List Char := text.filter (· != '\r')

section Paired

variable {text front back : List Char}

@[simp] theorem dropReturns_nil : dropReturns [] = [] := rfl

@[simp] theorem dropReturns_return (rest : List Char) :
    dropReturns ('\r' :: rest) = dropReturns rest := rfl

@[simp] theorem dropReturns_cons {c : Char} (hc : c ≠ '\r') (rest : List Char) :
    dropReturns (c :: rest) = c :: dropReturns rest := List.filter_cons_of_pos (by simpa using hc)

@[simp] theorem dropReturns_append (front back : List Char) :
    dropReturns (front ++ back) = dropReturns front ++ dropReturns back := List.filter_append ..

theorem dropReturns_eq_self (h : '\r' ∉ text) : dropReturns text = text :=
  List.filter_eq_self.2 fun _ hc => bne_iff_ne.2 fun heq => h (heq ▸ hc)

theorem not_mem_dropReturns {c : Char} (h : c ∉ text) : c ∉ dropReturns text := fun hmem =>
  h (List.mem_filter.1 hmem).1

theorem Paired.of_not_mem (h : '\r' ∉ text) : Paired text := by
  induction text with
  | nil => trivial
  | cons c text ih =>
    obtain ⟨hc, htext⟩ := not_or.1 (mt List.mem_cons.2 h)
    exact ⟨fun heq => absurd heq.symm hc, ih htext⟩

theorem Paired.behind (h : Paired (front ++ back)) : Paired back := by
  induction front with
  | nil => exact h
  | cons c front ih => exact ih h.2

/-- The front of a paired text is paired if it does not end in a carriage return. -/
theorem Paired.before (h : Paired (front ++ back)) (hlast : front.getLast? ≠ some '\r') :
    Paired front := by
  induction front with
  | nil => trivial
  | cons c front ih =>
    rcases front with _ | ⟨d, front⟩
    · exact ⟨fun heq => absurd (heq ▸ rfl) hlast, trivial⟩
    · exact ⟨h.1, ih h.2 (by simpa using hlast)⟩

/-- A carriage return stands in front of nothing but a newline. -/
theorem Paired.getLast?_ne {c : Char} (h : Paired (front ++ c :: back)) (hc : c ≠ '\n') :
    front.getLast? ≠ some '\r' := by
  intro hlast
  obtain ⟨init, rfl⟩ := List.getLast?_eq_some_iff.1 hlast
  rw [List.append_assoc] at h
  exact hc (Option.some.inj (h.behind.1 rfl))

/-- **Unifying line ends** takes the carriage returns out of a paired text. -/
theorem unifyLineEndChars_eq (h : Paired text) : unifyLineEndChars text = dropReturns text := by
  fun_induction unifyLineEndChars text with
  | case1 => rfl
  | case2 rest ih => rw [ih h.2.2, dropReturns_return, dropReturns_cons (by decide)]
  | case3 rest hrest ih =>
    obtain ⟨tail, rfl⟩ := List.head?_eq_some_iff.1 (h.1 rfl)
    exact (hrest tail rfl).elim
  | case4 c rest _ hc ih => rw [ih h.2, dropReturns_cons fun heq => hc heq]

/-- What starts a text without its carriage returns starts the text, or is a newline. -/
theorem mem_head?_dropReturns (h : Paired text) :
    ∀ c ∈ (dropReturns text).head?, c ∈ text.head? ∨ c = '\n' := by
  intro c hc
  rcases text with _ | ⟨d, rest⟩
  · simp at hc
  · by_cases hd : d = '\r'
    · subst hd
      obtain ⟨tail, rfl⟩ := List.head?_eq_some_iff.1 (h.1 rfl)
      rw [dropReturns_return, dropReturns_cons (by decide)] at hc
      exact .inr (Option.some.inj hc).symm
    · rw [dropReturns_cons hd] at hc
      exact .inl hc

/-- Unifying the line ends of a paired text leaves it without its carriage returns. -/
theorem unifyLineEnds_ofList (h : Paired text) :
    unifyLineEnds (String.ofList text) = String.ofList (dropReturns text) := by
  rw [unifyLineEnds, String.toList_ofList, unifyLineEndChars_eq h]

/-- A text without carriage returns has its line ends unified. -/
theorem unifyLineEnds_eq_self {value : String} (h : '\r' ∉ value.toList) :
    unifyLineEnds value = value := by
  rw [unifyLineEnds, unifyLineEndChars_eq (.of_not_mem h), dropReturns_eq_self h,
    String.ofList_toList]

end Paired

end ScriptFrontend
