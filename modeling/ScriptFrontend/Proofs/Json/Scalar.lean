import ScriptFrontend.Proofs.Json.Text

/-!
# Proofs/Json/Scalar — a written scalar is read back

A number goes on as long as there are digits, a point or the mark of an exponent, so an integer is
read back only in front of a text that starts with none of these (`EndsNumber`).  Its digits are
those of the decimal system without a zero in front, which the reader would take for the whole
number (`head?_toDigits`).  A text ends with its quote, and a word is as long as it is.
-/

namespace ScriptFrontend.Json

/-! ## Numbers -/

/-- A text that does not go on with a number. -/
def EndsNumber (rest : List Char) : Prop :=
  ∀ c ∈ rest.head?, c.isDigit = false ∧ c ≠ '.' ∧ c ≠ 'e' ∧ c ≠ 'E'

theorem endsNumber_cons {c : Char} (rest : List Char)
    (h : c.isDigit = false ∧ c ≠ '.' ∧ c ≠ 'e' ∧ c ≠ 'E') : EndsNumber (c :: rest) := by
  intro d hd
  obtain rfl : c = d := by simpa using hd
  exact h

theorem endsNumber_gap {gap rest : List Char} (h : ∀ c ∈ gap, isGap c = true)
    (hrest : EndsNumber rest) : EndsNumber (gap ++ rest) := by
  rcases gap with _ | ⟨c, gap⟩
  · exact hrest
  · refine endsNumber_cons _ ?_
    have hgap : isGap c = true := h c List.mem_cons_self
    simp only [isGap, Bool.or_eq_true, beq_iff_eq] at hgap
    rcases hgap with ((rfl | rfl) | rfl) | rfl <;> decide

theorem digitsBehind_of_ends {rest : List Char} (h : EndsNumber rest) :
    digitsBehind '.' rest = ([], rest) := by
  rcases rest with _ | ⟨c, rest⟩
  · rfl
  · simp [digitsBehind, (h c rfl).2.1]

theorem exponent?_of_ends {rest : List Char} (h : EndsNumber rest) :
    exponent? rest = (none, rest) := by
  rcases rest with _ | ⟨c, rest⟩
  · rfl
  · simp [exponent?, (h c rfl).2.2]

theorem isDigit_toDigits {n : Nat} : ∀ c ∈ Nat.toDigits 10 n, c.isDigit = true := fun _ hmem =>
  Nat.isDigit_of_mem_toDigits (by decide) (by decide) hmem

theorem head?_toDigits_append (n : Nat) (rest : List Char) :
    (Nat.toDigits 10 n ++ rest).head? = (Nat.toDigits 10 n).head? := by
  rw [List.head?_append, Option.or_of_isSome (List.isSome_head?.2 Nat.toDigits_ne_nil)]

/-- The digits of a number other than zero start with none. -/
theorem head?_toDigits {n : Nat} (h : n ≠ 0) : (Nat.toDigits 10 n).head? ≠ some '0' := by
  induction n using Nat.strongRecOn with
  | _ n ih =>
    rw [Nat.toDigits_eq_if (by decide)]
    split
    next hlt =>
      have hdigit : ∀ d < 10, d ≠ 0 → d.digitChar ≠ '0' := by decide
      simpa using hdigit n hlt h
    next hge =>
      rw [head?_toDigits_append]
      exact ih (n / 10) (by omega) (by omega)

theorem takeWhile_digits {digits rest : List Char} (h : ∀ c ∈ digits, c.isDigit = true)
    (hrest : EndsNumber rest) :
    (digits ++ rest).takeWhile Char.isDigit = digits ∧
      (digits ++ rest).dropWhile Char.isDigit = rest := by
  rw [List.takeWhile_append_of_pos h, List.dropWhile_append_of_pos h]
  rcases rest with _ | ⟨c, rest⟩
  · simp
  · simp [(hrest c rfl).1]

theorem wholeDigits_toDigits (n : Nat) {rest : List Char} (h : EndsNumber rest) :
    wholeDigits (Nat.toDigits 10 n ++ rest) = (Nat.toDigits 10 n, rest) := by
  by_cases hzero : n = 0
  · subst hzero
    rw [Nat.toDigits_zero]
    rfl
  · unfold wholeDigits
    split
    next behind heq =>
      have hhead := congrArg List.head? heq
      rw [head?_toDigits_append] at hhead
      exact absurd hhead (head?_toDigits hzero)
    next =>
      obtain ⟨htake, hdrop⟩ := takeWhile_digits isDigit_toDigits h
      rw [htake, hdrop]

theorem decimalNumber_toDigits (n : Nat) : decimalNumber (Nat.toDigits 10 n) = n := by
  refine Eq.trans ?_ (Nat.ofDigitChars_ten_toDigits (n := n))
  rw [Nat.ofDigitChars_eq_foldl, decimalNumber]
  simp only [Nat.mul_comm]
  rfl

variable {longest room : Nat} {rest : List Char}

theorem outcome_unsigned_toDigits (negative : Bool) {n : Nat} (hrest : EndsNumber rest)
    (hlength : (Nat.toDigits 10 n).length ≤ longest) :
    (unsigned longest negative (Nat.toDigits 10 n ++ rest)).outcome =
      .ok (.int (if negative then -n else n), rest) := by
  rw [outcome_unsigned, wholeDigits_toDigits n hrest]
  simp [digitsBehind_of_ends hrest, exponent?_of_ends hrest, Nat.toDigits_ne_nil,
    Nat.not_lt.2 hlength, decimalNumber_toDigits]

/-- The characters of an integer: its digits, behind a dash if it is negative. -/
theorem toList_int (n : Int) :
    (toString n).toList =
      if 0 ≤ n then Nat.toDigits 10 n.toNat else '-' :: Nat.toDigits 10 (-n).toNat := by
  rw [show toString n = n.repr from rfl, Int.repr_eq_if]
  split <;> simp [Nat.repr_eq_ofList_toDigits]

/-! ## Scalars -/

theorem scalar_digit {c : Char} (h : c.isDigit = true) (rest : List Char) :
    scalar longest (c :: rest) = unsigned longest false (c :: rest) := by
  rw [scalar]
  all_goals
    rintro behind heq
    obtain rfl := (List.cons.inj heq).1
    revert h
    decide

theorem scalar_dash {c : Char} (h : c.isDigit = true) (rest : List Char) :
    (scalar longest ('-' :: c :: rest)).outcome = (unsigned longest true (c :: rest)).outcome := by
  rw [scalar]
  · simp
  · rintro behind heq
    obtain rfl := (List.cons.inj heq).1
    revert h
    decide

theorem exists_toDigits (n : Nat) :
    ∃ c digits, Nat.toDigits 10 n = c :: digits ∧ c.isDigit = true := by
  rcases hdigits : Nat.toDigits 10 n with _ | ⟨c, digits⟩
  · exact absurd hdigits Nat.toDigits_ne_nil
  · exact ⟨c, digits, rfl, isDigit_toDigits c (hdigits ▸ List.mem_cons_self)⟩

/-- An integer starts with a dash or a digit. -/
theorem head_int (n : Int) : ∃ c digits, (toString n).toList = c :: digits ∧
    isGap c = false ∧ c ≠ ']' ∧ c ≠ '\x7d' ∧ c ≠ '[' ∧ c ≠ '\x7b' := by
  have hother {c : Char} (hc : c = '-' ∨ c.isDigit = true) :
      isGap c = false ∧ c ≠ ']' ∧ c ≠ '\x7d' ∧ c ≠ '[' ∧ c ≠ '\x7b' := by
    have hnone : ∀ d ∈ [' ', '\t', '\n', '\r', ']', '\x7d', '[', '\x7b'],
        ¬ (d = '-' ∨ d.isDigit = true) := by simp
    have hne : ∀ d ∈ [' ', '\t', '\n', '\r', ']', '\x7d', '[', '\x7b'], c ≠ d :=
      fun d hd heq => hnone d hd (heq ▸ hc)
    simp only [List.forall_mem_cons] at hne
    simp [isGap, hne]
  rw [toList_int]
  split
  · obtain ⟨c, digits, hdigits, hc⟩ := exists_toDigits n.toNat
    exact ⟨c, digits, hdigits, hother (.inr hc)⟩
  · exact ⟨'-', _, rfl, hother (.inl rfl)⟩

theorem ascii_int (n : Int) : Ascii (toString n).toList := by
  have hdigits (m : Nat) : Ascii (Nat.toDigits 10 m) := by
    intro c hmem
    have hdigit := isDigit_toDigits c hmem
    simp only [Char.isDigit, Bool.and_eq_true, decide_eq_true_eq, UInt32.le_iff_toNat_le] at hdigit
    exact Nat.lt_of_le_of_lt hdigit.2 (by decide)
  rw [toList_int]
  split
  · exact hdigits _
  · exact ascii_cons (by decide) (hdigits _)

theorem outcome_scalar_int (n : Int) (hrest : EndsNumber rest)
    (hlength : (toString n).toList.length ≤ longest) :
    (scalar longest ((toString n).toList ++ rest)).outcome = .ok (.int n, rest) := by
  rw [toList_int] at hlength ⊢
  split at hlength
  next hn =>
    obtain ⟨c, digits, hdigits, hc⟩ := exists_toDigits n.toNat
    have hread := outcome_unsigned_toDigits false hrest hlength
    rw [if_pos hn, hdigits, List.cons_append, scalar_digit hc, ← List.cons_append, ← hdigits, hread]
    simp [Int.toNat_of_nonneg hn]
  next hn =>
    obtain ⟨c, digits, hdigits, hc⟩ := exists_toDigits (-n).toNat
    have hread := outcome_unsigned_toDigits true hrest (Nat.le_of_succ_le hlength)
    rw [if_neg hn, hdigits, List.cons_append, List.cons_append, scalar_dash hc, ← List.cons_append,
      ← hdigits, hread]
    simp [Int.toNat_of_nonneg (show 0 ≤ -n by omega)]

theorem outcome_scalar_string (text : String) :
    (scalar longest ((writtenText text).toList ++ rest)).outcome = .ok (.string text, rest) := by
  have hbody := outcome_textBody_written text.toList [] rest
  rw [writtenText, String.toList_ofList, List.append_assoc, List.cons_append, List.singleton_append,
    scalar]
  simp [hbody]

theorem outcome_spelled (word : String) (value : Json) (hword : word.toList ≠ []) :
    (spelled word value (word.toList ++ rest)).outcome = .ok (value, rest) := by
  rw [spelled, dif_pos ⟨hword, by simp⟩]
  simp

theorem outcome_scalar_word {json : Json}
    (h : json = .null ∨ json = .bool true ∨ json = .bool false) :
    (scalar longest ((writtenScalar json).toList ++ rest)).outcome = .ok (json, rest) := by
  rcases h with rfl | rfl | rfl
  · exact outcome_spelled "null" .null (by decide)
  · exact outcome_spelled "true" (.bool true) (by decide)
  · exact outcome_spelled "false" (.bool false) (by decide)

end ScriptFrontend.Json
