import ScriptFrontend.Json.Writer
import ScriptFrontend.Proofs.Json.Reading

/-!
# Proofs/Json/Text — a written text is read back

A character is written as itself, as a backslash and a letter, or as one or two escapes of four
hexadecimal digits; the reader knows each form by its first characters (`outcome_textBody_plain` and
so on).  An escape is read with a look at what follows, since it may be half of a pair: a written
character is never the first half alone, so the look makes no difference (`Escaped`).
-/

namespace ScriptFrontend.Json

variable {read rest : List Char}

/-! ## Hexadecimal digits -/

/-- The digits of a number of 16 bits. -/
theorem hexDigits_four {n : Nat} (h : n < 0x10000) :
    hexDigits 4 n = [Nat.digitChar (n / 0x1000), Nat.digitChar (n / 0x100 % 16),
      Nat.digitChar (n / 0x10 % 16), Nat.digitChar (n % 16)] := by
  have hzero : Nat.digitChar 0 = '0' := rfl
  have hsplit (n : Nat) : Nat.toDigits 16 n =
      if n < 16 then [n.digitChar] else Nat.toDigits 16 (n / 16) ++ [(n % 16).digitChar] :=
    Nat.toDigits_eq_if (by decide)
  have h256 : n / 16 / 16 = n / 0x100 := Nat.div_div_eq_div_mul n 16 16
  have h4096 : n / 0x100 / 16 = n / 0x1000 := Nat.div_div_eq_div_mul n 0x100 16
  rw [hexDigits, hsplit n, hsplit (n / 16), h256, hsplit (n / 0x100), h4096, hsplit (n / 0x1000)]
  by_cases h1 : n < 16
  · have : n / 0x1000 = 0 ∧ n / 0x100 % 16 = 0 ∧ n / 0x10 % 16 = 0 ∧ n % 16 = n := by omega
    simp [h1, this, hzero, List.replicate]
  by_cases h2 : n / 16 < 16
  · have : n / 0x1000 = 0 ∧ n / 0x100 % 16 = 0 ∧ n / 0x10 % 16 = n / 0x10 := by omega
    simp [h1, h2, this, hzero, List.replicate]
  by_cases h3 : n / 0x100 < 16
  · have : n / 0x1000 = 0 ∧ n / 0x100 % 16 = n / 0x100 := by omega
    simp [h1, h2, h3, this, hzero]
  · have h4 : n / 0x1000 < 16 := by omega
    simp [h1, h2, h3, h4]

theorem hexValue?_digitChar : ∀ d < 16, hexValue? (Nat.digitChar d) = some d := by decide

/-- **An escape names its number.** -/
theorem exists_unitEscape {n : Nat} (h : n < 0x10000) :
    ∃ a b c d, unitEscape n = ['\\', 'u', a, b, c, d] ∧ hexNumber? a b c d = some n := by
  refine ⟨_, _, _, _, by rw [unitEscape, hexDigits_four h], ?_⟩
  rw [hexNumber?, hexValue?_digitChar _ (by omega), hexValue?_digitChar _ (by omega),
    hexValue?_digitChar _ (by omega), hexValue?_digitChar _ (by omega)]
  simp only [Option.bind_eq_bind, Option.bind_some, Option.some.injEq]
  omega

/-! ## One character -/

theorem outcome_textBody_quote :
    (textBody read ('"' :: rest)).outcome = .ok (read.reverse, rest) := by
  simp [textBody]

theorem outcome_textBody_plain {c : Char} (hlow : 0x20 ≤ c.toNat) (hquote : c ≠ '"')
    (hbackslash : c ≠ '\\') :
    (textBody read (c :: rest)).outcome = (textBody (c :: read) rest).outcome := by
  rw [textBody]
  · simp [hbackslash, Nat.not_lt.2 hlow]
  all_goals simp_all

theorem outcome_textBody_letter {letter c : Char} (hletter : letter ≠ 'u')
    (hc : escapeTable.lookup letter = some c) :
    (textBody read ('\\' :: letter :: rest)).outcome = (textBody (c :: read) rest).outcome := by
  rw [textBody]
  · simp [hc]
  all_goals simp_all

/-- What stands behind an escape: another escape has four digits. -/
def Escaped (rest : List Char) : Prop :=
  ∀ e f g h behind, rest = '\\' :: 'u' :: e :: f :: g :: h :: behind →
    ∃ low, hexNumber? e f g h = some low

theorem outcome_textBody_unit {a b c d : Char} {n : Nat} (hn : hexNumber? a b c d = some n)
    (hhalf : isHighHalf n = false) (hrest : Escaped rest) :
    (textBody read ('\\' :: 'u' :: a :: b :: c :: d :: rest)).outcome =
      (textBody (unitChar n :: read) rest).outcome := by
  by_cases hnext : ∃ e f g h behind, rest = '\\' :: 'u' :: e :: f :: g :: h :: behind
  · obtain ⟨e, f, g, h, behind, rfl⟩ := hnext
    obtain ⟨low, hlow⟩ := hrest _ _ _ _ _ rfl
    rw [textBody]
    simp [hn, hlow, hhalf]
  · rw [textBody]
    · simp [hn]
    · rintro e f g h behind rfl
      exact hnext ⟨_, _, _, _, _, rfl⟩

theorem outcome_textBody_pair {a b c d e f g h : Char} {high low : Nat}
    (hhigh : hexNumber? a b c d = some high) (hlow : hexNumber? e f g h = some low)
    (hhighHalf : isHighHalf high = true) (hlowHalf : isLowHalf low = true) :
    (textBody read ('\\' :: 'u' :: a :: b :: c :: d :: '\\' :: 'u' :: e :: f :: g :: h ::
      rest)).outcome = (textBody (pairChar high low :: read) rest).outcome := by
  rw [textBody]
  simp [hhigh, hlow, hhighHalf, hlowHalf]

/-! ## Texts -/

/-- No character is half of a surrogate pair. -/
theorem not_half (c : Char) : isHighHalf c.toNat = false ∧ isLowHalf c.toNat = false := by
  have hvalid : c.toNat < 0xd800 ∨ 0xdfff < c.toNat ∧ c.toNat < 0x110000 := c.valid
  simp only [isHighHalf, isLowHalf, Bool.and_eq_false_iff, decide_eq_false_iff_not]
  omega

theorem unitChar_toNat (c : Char) : unitChar c.toNat = c := by
  simp [unitChar, not_half c, Char.ofNat_toNat]

/-- What the letters behind a backslash stand for. -/
theorem escapeTable_lookup :
    escapeTable.lookup '"' = some '"' ∧ escapeTable.lookup '\\' = some '\\' ∧
    escapeTable.lookup 'n' = some '\n' ∧ escapeTable.lookup 'r' = some '\r' ∧
    escapeTable.lookup 't' = some '\t' ∧ escapeTable.lookup 'b' = some '\x08' ∧
    escapeTable.lookup 'f' = some '\x0c' := by decide

/-- How a character is written: as a backslash and a letter, as itself, or as escapes. -/
inductive CharForm (c : Char) : List Char → Prop where
  | letter {letter : Char} : letter ≠ 'u' ∧ letter.toNat < 0x80 →
    escapeTable.lookup letter = some c → CharForm c ['\\', letter]
  | plain : 0x20 ≤ c.toNat → c.toNat < 0x7f → c ≠ '"' → c ≠ '\\' → CharForm c [c]
  | unit : c.toNat < 0x10000 → CharForm c (unitEscape c.toNat)
  | pair : 0x10000 ≤ c.toNat → CharForm c
    (unitEscape (0xd800 + (c.toNat - 0x10000) / 0x400) ++
      unitEscape (0xdc00 + (c.toNat - 0x10000) % 0x400))

theorem charForm_escapeChar (c : Char) : CharForm c (escapeChar c) := by
  obtain ⟨hquote, hbackslash, hn, hr, ht, hb, hf⟩ := escapeTable_lookup
  unfold escapeChar
  split
  next h => exact .letter (by decide) (h ▸ hquote)
  next hneQuote =>
  split
  next h => exact .letter (by decide) (h ▸ hbackslash)
  next hneBackslash =>
  split
  next h => exact .letter (by decide) (h ▸ hn)
  split
  next h => exact .letter (by decide) (h ▸ hr)
  split
  next h => exact .letter (by decide) (h ▸ ht)
  split
  next h => exact .letter (by decide) (h ▸ hb)
  split
  next h => exact .letter (by decide) (h ▸ hf)
  split
  next h => exact .plain h.1 h.2 hneQuote hneBackslash
  split
  next h => exact .unit h
  next h => exact .pair (Nat.not_lt.1 h)

/-- Behind a written character there is a written text, and so no broken escape. -/
theorem escaped_written (text rest : List Char) :
    Escaped (text.flatMap escapeChar ++ '"' :: rest) := by
  intro e f g h behind heq
  rcases text with _ | ⟨c, text⟩
  · simp at heq
  rw [List.flatMap_cons, List.append_assoc] at heq
  have hform := charForm_escapeChar c
  generalize escapeChar c = form at heq hform
  have hunit {n : Nat} {tail : List Char} (hn : n < 0x10000)
      (heq : unitEscape n ++ tail = '\\' :: 'u' :: e :: f :: g :: h :: behind) :
      ∃ low, hexNumber? e f g h = some low := by
    obtain ⟨a, b, c, d, hunit, hnumber⟩ := exists_unitEscape hn
    simp only [hunit, List.cons_append, List.nil_append, List.cons.injEq, true_and] at heq
    obtain ⟨rfl, rfl, rfl, rfl, -⟩ := heq
    exact ⟨n, hnumber⟩
  cases hform with
  | letter hne => simp_all
  | plain _ _ _ hne => simp_all
  | unit hn => exact hunit hn heq
  | pair hn =>
    have hvalid : c.toNat < 0xd800 ∨ 0xdfff < c.toNat ∧ c.toNat < 0x110000 := c.valid
    rw [List.append_assoc] at heq
    exact hunit (by omega) heq

/-- The two halves of a pair give the character back. -/
theorem pairChar_halves {c : Char} (h : 0x10000 ≤ c.toNat) :
    pairChar (0xd800 + (c.toNat - 0x10000) / 0x400) (0xdc00 + (c.toNat - 0x10000) % 0x400) = c := by
  have hn : 0x10000 + (0xd800 + (c.toNat - 0x10000) / 0x400 - 0xd800) * 0x400 +
      (0xdc00 + (c.toNat - 0x10000) % 0x400 - 0xdc00) = c.toNat := by omega
  rw [pairChar, hn, Char.ofNat_toNat]

/-- **A written text is read back.** -/
theorem outcome_textBody_written (text : List Char) :
    ∀ read rest, (textBody read (text.flatMap escapeChar ++ '"' :: rest)).outcome =
      .ok (read.reverse ++ text, rest) := by
  induction text with
  | nil => intro read rest; exact outcome_textBody_quote.trans (by rw [List.append_nil])
  | cons c text ih =>
    intro read rest
    have hnext := ih (c :: read) rest
    have hescaped := escaped_written text rest
    rw [List.reverse_cons, List.append_assoc, List.singleton_append] at hnext
    rw [List.flatMap_cons, List.append_assoc, ← hnext]
    generalize text.flatMap escapeChar ++ '"' :: rest = behind at hescaped
    have hform := charForm_escapeChar c
    generalize escapeChar c = form at hform
    cases hform with
    | letter hne hlookup => exact outcome_textBody_letter hne.1 hlookup
    | plain hlow _ hquote hbackslash => exact outcome_textBody_plain hlow hquote hbackslash
    | unit hn =>
      obtain ⟨a, b, d, e, hunit, hnumber⟩ := exists_unitEscape hn
      rw [hunit]
      exact (outcome_textBody_unit hnumber (not_half c).1 hescaped).trans (by rw [unitChar_toNat])
    | pair hn =>
      have hvalid : c.toNat < 0xd800 ∨ 0xdfff < c.toNat ∧ c.toNat < 0x110000 := c.valid
      obtain ⟨_, _, _, _, hhigh, hhighNumber⟩ :=
        exists_unitEscape (n := 0xd800 + (c.toNat - 0x10000) / 0x400) (by omega)
      obtain ⟨_, _, _, _, hlow, hlowNumber⟩ :=
        exists_unitEscape (n := 0xdc00 + (c.toNat - 0x10000) % 0x400) (by omega)
      rw [hhigh, hlow]
      refine (outcome_textBody_pair hhighNumber hlowNumber ?_ ?_).trans
        (by rw [pairChar_halves hn]; rfl)
      · simp only [isHighHalf, Bool.and_eq_true, decide_eq_true_eq]
        omega
      · simp only [isLowHalf, Bool.and_eq_true, decide_eq_true_eq]
        omega

/-! ## ASCII -/

/-- Every character is one of ASCII. -/
def Ascii (text : List Char) : Prop := ∀ c ∈ text, c.toNat < 0x80

theorem ascii_nil : Ascii [] := List.forall_mem_nil _

theorem ascii_append {front back : List Char} (hfront : Ascii front) (hback : Ascii back) :
    Ascii (front ++ back) :=
  List.forall_mem_append.2 ⟨hfront, hback⟩

theorem ascii_cons {c : Char} {text : List Char} (hc : c.toNat < 0x80) (htext : Ascii text) :
    Ascii (c :: text) :=
  List.forall_mem_cons.2 ⟨hc, htext⟩

theorem ascii_unitEscape {n : Nat} (h : n < 0x10000) : Ascii (unitEscape n) := by
  have hdigit : ∀ d < 16, (Nat.digitChar d).toNat < 0x80 := by decide
  rw [unitEscape, hexDigits_four h]
  refine ascii_cons (by decide) (ascii_cons (by decide) ?_)
  simp only [Ascii, List.forall_mem_cons, List.not_mem_nil, false_implies, implies_true, and_true]
  exact ⟨hdigit _ (by omega), hdigit _ (by omega), hdigit _ (by omega), hdigit _ (by omega)⟩

theorem ascii_escapeChar (c : Char) : Ascii (escapeChar c) := by
  have hform := charForm_escapeChar c
  generalize escapeChar c = form at hform
  cases hform with
  | letter hletter => exact ascii_cons (by decide) (ascii_cons hletter.2 ascii_nil)
  | plain _ hhigh => exact ascii_cons (Nat.lt_trans hhigh (by decide)) ascii_nil
  | unit hn => exact ascii_unitEscape hn
  | pair hn =>
    have hvalid : c.toNat < 0xd800 ∨ 0xdfff < c.toNat ∧ c.toNat < 0x110000 := c.valid
    exact ascii_append (ascii_unitEscape (by omega)) (ascii_unitEscape (by omega))

/-- **A text is written in ASCII.** -/
theorem ascii_writtenText (text : String) : Ascii (writtenText text).toList := by
  rw [writtenText, String.toList_ofList]
  refine ascii_cons (by decide) (ascii_append (fun d hmem => ?_) (ascii_cons (by decide) ascii_nil))
  obtain ⟨c, -, hd⟩ := List.mem_flatMap.1 hmem
  exact ascii_escapeChar c d hd

end ScriptFrontend.Json
