import ScriptFrontend.Text.Utf8

/-!
# Proofs/Text/Utf8 — bytes are read as the text they are written for

`decode_eq_ok_iff`: bytes are read as a text exactly if they are the bytes of that text.

The standard form of a character is `String.utf8EncodeChar`.  Reading goes over it in one step
(`between_written`), and wherever reading succeeds such a form stands in front
(`exists_written_of_between`), by cases on how many bytes the first one leaves owed.
-/

namespace ScriptFrontend.Utf8

/-- The bytes of a text, character by character. -/
theorem toList_toUTF8 (text : String) :
    text.toUTF8.toList = text.toList.flatMap String.utf8EncodeChar := by
  have hloop (bytes : ByteArray) : ∀ (count i : Nat) (read : List UInt8), bytes.size - i = count →
      ByteArray.toList.loop bytes i read = read.reverse ++ bytes.data.toList.drop i := by
    intro count
    induction count with
    | zero =>
      intro i read hcount
      rw [ByteArray.toList.loop, if_neg (by omega), List.drop_eq_nil_of_le, List.append_nil]
      rw [Array.length_toList]
      exact Nat.le_of_sub_eq_zero hcount
    | succ count ih =>
      intro i read hcount
      have hi : i < bytes.data.toList.length := by
        rw [Array.length_toList]
        exact Nat.lt_of_sub_eq_succ hcount
      have hget : bytes.get! i = bytes.data.toList[i] := by
        rw [Array.getElem_toList]
        exact getElem!_pos bytes.data i _
      rw [ByteArray.toList.loop, if_pos (by omega), ih _ _ (by omega), List.drop_eq_getElem_cons hi,
        hget]
      simp
  have htext : text.toUTF8.data.toList = text.toList.flatMap String.utf8EncodeChar := by
    rw [String.toUTF8, ← String.utf8Encode_toList, List.utf8Encode, List.data_toByteArray]
  rw [ByteArray.toList, hloop _ _ 0 [] rfl, htext]
  rfl

/-! ## One character -/

section Character

variable {offset taken low high value count : Nat} {first : UInt8} {bytes : List UInt8}
  {chars : List Char}

/-- The number of a character that stands for a number. -/
theorem toNat_val_ofNat {n : Nat} (h : n < 0xd800 ∨ 0xdfff < n ∧ n < 0x110000) :
    (Char.ofNat n).val.toNat = n := by
  have hvalid : n.isValidChar := h.imp id fun h => ⟨h.1, h.2⟩
  rw [Char.ofNat, dif_pos hvalid]
  rfl

theorem cons_map_eq_ok {result : Except Flaw (List Char)} {c : Char} :
    (c :: ·) <$> result = .ok chars ↔ ∃ behind, result = .ok behind ∧ chars = c :: behind := by
  cases result with
  | error flaw => simp [Functor.map, Except.map]
  | ok behind => simp [Functor.map, Except.map, eq_comm]

/-- The last byte of a character. -/
theorem inside_last :
    inside offset first taken ⟨1, low, high, value⟩ bytes = .ok chars ↔
      ∃ byte rest behind, bytes = byte :: rest ∧ low ≤ byte.toNat ∧ byte.toNat ≤ high ∧
        between (offset + taken + 1) rest = .ok behind ∧
        chars = Char.ofNat (value * 64 + (byte.toNat - 0x80)) :: behind := by
  cases bytes with
  | nil => simp [inside]
  | cons byte rest =>
    rw [inside]
    by_cases h : low ≤ byte.toNat ∧ byte.toNat ≤ high
    · simp only [if_pos h, Nat.le_refl, if_true, cons_map_eq_ok, List.cons.injEq]
      constructor
      · rintro ⟨behind, hbehind, rfl⟩
        exact ⟨byte, rest, behind, ⟨rfl, rfl⟩, h.1, h.2, hbehind, rfl⟩
      · rintro ⟨_, _, behind, ⟨rfl, rfl⟩, _, _, hbehind, rfl⟩
        exact ⟨behind, hbehind, rfl⟩
    · rw [if_neg h]
      constructor
      · nofun
      · rintro ⟨_, _, _, heq, hlow, hhigh, _⟩
        obtain ⟨rfl, rfl⟩ := List.cons.inj heq
        exact absurd ⟨hlow, hhigh⟩ h

/-- A byte of a character that is not the last one. -/
theorem inside_further :
    inside offset first taken ⟨count + 2, low, high, value⟩ bytes = .ok chars ↔
      ∃ byte rest, bytes = byte :: rest ∧ low ≤ byte.toNat ∧ byte.toNat ≤ high ∧
        inside offset first (taken + 1)
          ⟨count + 1, 0x80, 0xbf, value * 64 + (byte.toNat - 0x80)⟩ rest = .ok chars := by
  cases bytes with
  | nil => simp [inside]
  | cons byte rest =>
    rw [inside]
    by_cases h : low ≤ byte.toNat ∧ byte.toNat ≤ high
    · rw [if_pos h]
      dsimp only
      rw [if_neg (by omega)]
      constructor
      · intro hrest
        exact ⟨byte, rest, rfl, h.1, h.2, hrest⟩
      · rintro ⟨_, _, heq, _, _, hrest⟩
        obtain ⟨rfl, rfl⟩ := List.cons.inj heq
        exact hrest
    · rw [if_neg h]
      constructor
      · nofun
      · rintro ⟨_, _, heq, hlow, hhigh, _⟩
        obtain ⟨rfl, rfl⟩ := List.cons.inj heq
        exact absurd ⟨hlow, hhigh⟩ h

theorem between_single {byte : UInt8} (h : byte.toNat < 0x80) :
    between offset (byte :: bytes) = .ok chars ↔
      ∃ behind, between (offset + 1) bytes = .ok behind ∧
        chars = Char.ofNat byte.toNat :: behind := by
  rw [between, if_pos h, cons_map_eq_ok]

theorem between_lead {byte : UInt8} {owed : Owed} (h : ¬ byte.toNat < 0x80)
    (howed : lead? byte.toNat = some owed) :
    between offset (byte :: bytes) = inside offset byte 1 owed bytes := by
  rw [between, if_neg h, howed]

/-- The number of further bytes that a first byte leaves owed. -/
theorem lead?_cases {b : Nat} {owed : Owed} (h : lead? b = some owed) :
    (0xc2 ≤ b ∧ b ≤ 0xdf ∧ owed = ⟨1, 0x80, 0xbf, b - 0xc0⟩) ∨
    (0xe0 ≤ b ∧ b ≤ 0xef ∧
      owed = ⟨2, if b = 0xe0 then 0xa0 else 0x80, if b = 0xed then 0x9f else 0xbf, b - 0xe0⟩) ∨
    (0xf0 ≤ b ∧ b ≤ 0xf4 ∧
      owed = ⟨3, if b = 0xf0 then 0x90 else 0x80, if b = 0xf4 then 0x8f else 0xbf, b - 0xf0⟩) := by
  unfold lead? at h
  split at h
  next hb => exact .inl ⟨hb.1, hb.2, (Option.some.inj h).symm⟩
  split at h
  next hb => exact .inr (.inl ⟨hb.1, hb.2, (Option.some.inj h).symm⟩)
  split at h
  next hb => exact .inr (.inr ⟨hb.1, hb.2, (Option.some.inj h).symm⟩)
  next => cases h

/-! ### The standard form of a character -/

section Forms

variable {a b c d : Nat}

theorem utf8EncodeChar_one (ha : a < 0x80) :
    String.utf8EncodeChar (Char.ofNat a) = [UInt8.ofNat a] := by
  rw [String.utf8EncodeChar, toNat_val_ofNat (by omega), if_pos (by omega)]

theorem utf8EncodeChar_two (hlow : 2 ≤ a) (ha : a < 0x20) (hb : b < 0x40) :
    String.utf8EncodeChar (Char.ofNat (a * 64 + b)) =
      [UInt8.ofNat (0xc0 + a), UInt8.ofNat (0x80 + b)] := by
  rw [String.utf8EncodeChar, toNat_val_ofNat (by omega), if_neg (by omega), if_pos (by omega),
    show (a * 64 + b) / 64 % 32 + 192 = 0xc0 + a by omega,
    show (a * 64 + b) % 64 + 128 = 0x80 + b by omega]

theorem utf8EncodeChar_three (hlow : 0x20 ≤ a * 64 + b) (hhalf : a = 0xd → b < 0x20)
    (ha : a < 0x10) (hb : b < 0x40) (hc : c < 0x40) :
    String.utf8EncodeChar (Char.ofNat ((a * 64 + b) * 64 + c)) =
      [UInt8.ofNat (0xe0 + a), UInt8.ofNat (0x80 + b), UInt8.ofNat (0x80 + c)] := by
  rw [String.utf8EncodeChar, toNat_val_ofNat (by omega), if_neg (by omega), if_neg (by omega),
    if_pos (by omega), show ((a * 64 + b) * 64 + c) / 4096 % 16 + 224 = 0xe0 + a by omega,
    show ((a * 64 + b) * 64 + c) / 64 % 64 + 128 = 0x80 + b by omega,
    show ((a * 64 + b) * 64 + c) % 64 + 128 = 0x80 + c by omega]

theorem utf8EncodeChar_four (hlow : 0x10 ≤ a * 64 + b) (hhigh : a * 64 + b < 0x110)
    (hb : b < 0x40) (hc : c < 0x40) (hd : d < 0x40) :
    String.utf8EncodeChar (Char.ofNat (((a * 64 + b) * 64 + c) * 64 + d)) =
      [UInt8.ofNat (0xf0 + a), UInt8.ofNat (0x80 + b), UInt8.ofNat (0x80 + c),
        UInt8.ofNat (0x80 + d)] := by
  rw [String.utf8EncodeChar, toNat_val_ofNat (by omega), if_neg (by omega), if_neg (by omega),
    if_neg (by omega),
    show (((a * 64 + b) * 64 + c) * 64 + d) / 262144 % 8 + 240 = 0xf0 + a by omega,
    show (((a * 64 + b) * 64 + c) * 64 + d) / 4096 % 64 + 128 = 0x80 + b by omega,
    show (((a * 64 + b) * 64 + c) * 64 + d) / 64 % 64 + 128 = 0x80 + c by omega,
    show (((a * 64 + b) * 64 + c) * 64 + d) % 64 + 128 = 0x80 + d by omega]

end Forms

/-- A character by the numbers in its bytes. -/
theorem char_cases (c : Char) :
    (∃ a, a < 0x80 ∧ c = Char.ofNat a) ∨
    (∃ a b, 2 ≤ a ∧ a < 0x20 ∧ b < 0x40 ∧ c = Char.ofNat (a * 64 + b)) ∨
    (∃ a b d, 0x20 ≤ a * 64 + b ∧ (a = 0xd → b < 0x20) ∧ a < 0x10 ∧ b < 0x40 ∧ d < 0x40 ∧
      c = Char.ofNat ((a * 64 + b) * 64 + d)) ∨
    (∃ a b d e, 0x10 ≤ a * 64 + b ∧ a * 64 + b < 0x110 ∧ b < 0x40 ∧ d < 0x40 ∧ e < 0x40 ∧
      c = Char.ofNat (((a * 64 + b) * 64 + d) * 64 + e)) := by
  have hvalid : c.toNat < 0xd800 ∨ 0xdfff < c.toNat ∧ c.toNat < 0x110000 := c.valid
  have hc : c = Char.ofNat c.toNat := (Char.ofNat_toNat c).symm
  by_cases hone : c.toNat < 0x80
  · exact .inl ⟨_, hone, hc⟩
  by_cases htwo : c.toNat < 0x800
  · exact .inr (.inl ⟨c.toNat / 64, c.toNat % 64, by omega, by omega, by omega,
      hc.trans (congrArg _ (by omega))⟩)
  by_cases hthree : c.toNat < 0x10000
  · exact .inr (.inr (.inl ⟨c.toNat / 4096, c.toNat / 64 % 64, c.toNat % 64, by omega, by omega,
      by omega, by omega, by omega, hc.trans (congrArg _ (by omega))⟩))
  · exact .inr (.inr (.inr ⟨c.toNat / 262144, c.toNat / 4096 % 64, c.toNat / 64 % 64, c.toNat % 64,
      by omega, by omega, by omega, by omega, by omega, hc.trans (congrArg _ (by omega))⟩))

/-! ### Reading it -/

/-- A byte by what it has beyond a bound. -/
theorem ofNat_above (base : Nat) (byte : UInt8) (h : base ≤ byte.toNat) :
    UInt8.ofNat (base + (byte.toNat - base)) = byte := by
  rw [Nat.add_sub_cancel' h, UInt8.ofNat_toNat]

/-- **In front of bytes that can be read stands a character.** -/
theorem exists_written_of_between {byte : UInt8}
    (h : between offset (byte :: bytes) = .ok chars) :
    ∃ c rest behind further, byte :: bytes = String.utf8EncodeChar c ++ rest ∧
      between further rest = .ok behind ∧ chars = c :: behind := by
  by_cases hascii : byte.toNat < 0x80
  · obtain ⟨behind, hbehind, rfl⟩ := (between_single hascii).1 h
    refine ⟨_, bytes, behind, _, ?_, hbehind, rfl⟩
    rw [utf8EncodeChar_one hascii, UInt8.ofNat_toNat]
    rfl
  rcases howed : lead? byte.toNat with - | owed
  · rw [between, if_neg hascii, howed] at h
    cases h
  rw [between_lead hascii howed] at h
  rcases lead?_cases howed with ⟨hlow, hhigh, rfl⟩ | ⟨hlow, hhigh, rfl⟩ | ⟨hlow, hhigh, rfl⟩
  · obtain ⟨b, rest, behind, rfl, hb, hb', hbehind, rfl⟩ := inside_last.1 h
    refine ⟨_, rest, behind, _, ?_, hbehind, rfl⟩
    rw [utf8EncodeChar_two (by omega) (by omega) (by omega), ofNat_above _ byte (by omega),
      ofNat_above _ b hb]
    rfl
  · obtain ⟨b, rest, rfl, hb, hb', h⟩ := inside_further.1 h
    obtain ⟨c, rest, behind, rfl, hc, hc', hbehind, rfl⟩ := inside_last.1 h
    refine ⟨_, rest, behind, _, ?_, hbehind, rfl⟩
    have hbounds : 0x80 ≤ b.toNat ∧ b.toNat ≤ 0xbf ∧ (byte.toNat = 0xe0 → 0xa0 ≤ b.toNat) ∧
        (byte.toNat = 0xed → b.toNat ≤ 0x9f) := by
      split at hb <;> split at hb' <;> omega
    rw [utf8EncodeChar_three (by omega) (by omega) (by omega) (by omega) (by omega),
      ofNat_above _ byte hlow, ofNat_above _ b hbounds.1, ofNat_above _ c hc]
    rfl
  · obtain ⟨b, rest, rfl, hb, hb', h⟩ := inside_further.1 h
    obtain ⟨c, rest, rfl, hc, hc', h⟩ := inside_further.1 h
    obtain ⟨d, rest, behind, rfl, hd, hd', hbehind, rfl⟩ := inside_last.1 h
    refine ⟨_, rest, behind, _, ?_, hbehind, rfl⟩
    have hbounds : 0x80 ≤ b.toNat ∧ b.toNat ≤ 0xbf ∧ (byte.toNat = 0xf0 → 0x90 ≤ b.toNat) ∧
        (byte.toNat = 0xf4 → b.toNat ≤ 0x8f) := by
      split at hb <;> split at hb' <;> omega
    rw [utf8EncodeChar_four (by omega) (by omega) (by omega) (by omega) (by omega),
      ofNat_above _ byte hlow, ofNat_above _ b hbounds.1, ofNat_above _ c hc, ofNat_above _ d hd]
    rfl

/-- The number of a byte. -/
theorem toNat_ofNat {n : Nat} (h : n < 256) : (UInt8.ofNat n).toNat = n := by
  rw [UInt8.toNat_ofNat', Nat.mod_eq_of_lt h]

/-- The value of a further byte. -/
theorem toNat_continuation {n : Nat} (h : n < 0x40) :
    (UInt8.ofNat (0x80 + n)).toNat - 0x80 = n := by
  rw [toNat_ofNat (by omega), Nat.add_sub_cancel_left]

theorem lead?_two {a : Nat} (hlow : 2 ≤ a) (ha : a < 0x20) :
    lead? (0xc0 + a) = some ⟨1, 0x80, 0xbf, a⟩ := by
  rw [lead?, if_pos (by omega), Nat.add_sub_cancel_left]

theorem lead?_three {a : Nat} (ha : a < 0x10) :
    lead? (0xe0 + a) =
      some ⟨2, if 0xe0 + a = 0xe0 then 0xa0 else 0x80,
        if 0xe0 + a = 0xed then 0x9f else 0xbf, a⟩ := by
  rw [lead?, if_neg (by omega), if_pos (by omega), Nat.add_sub_cancel_left]

theorem lead?_four {a : Nat} (ha : a ≤ 4) :
    lead? (0xf0 + a) =
      some ⟨3, if 0xf0 + a = 0xf0 then 0x90 else 0x80,
        if 0xf0 + a = 0xf4 then 0x8f else 0xbf, a⟩ := by
  rw [lead?, if_neg (by omega), if_neg (by omega), if_pos (by omega), Nat.add_sub_cancel_left]

/-- **A character in front of bytes that can be read** is read. -/
theorem between_written (c : Char) {behind : List Char}
    (h : ∀ offset, between offset bytes = .ok behind) (offset : Nat) :
    between offset (String.utf8EncodeChar c ++ bytes) = .ok (c :: behind) := by
  rcases char_cases c with ⟨a, ha, rfl⟩ | ⟨a, b, hlow, ha, hb, rfl⟩ |
    ⟨a, b, d, hlow, hhalf, ha, hb, hd, rfl⟩ | ⟨a, b, d, e, hlow, hhigh, hb, hd, he, rfl⟩
  · have hbyte : (UInt8.ofNat a).toNat = a := toNat_ofNat (by omega)
    rw [utf8EncodeChar_one ha]
    exact (between_single (by rwa [hbyte])).2 ⟨behind, h _, by rw [hbyte]⟩
  · rw [utf8EncodeChar_two hlow ha hb]
    have hbyte : (UInt8.ofNat (0xc0 + a)).toNat = 0xc0 + a := toNat_ofNat (by omega)
    have hfirst : (UInt8.ofNat (0x80 + b)).toNat = 0x80 + b := toNat_ofNat (by omega)
    refine (between_lead (by omega) (by rw [hbyte, lead?_two hlow ha])).trans
      (inside_last.2 ⟨_, bytes, behind, rfl, by omega, by omega, h _, ?_⟩)
    rw [toNat_continuation hb]
  · rw [utf8EncodeChar_three hlow hhalf ha hb hd]
    have hbyte : (UInt8.ofNat (0xe0 + a)).toNat = 0xe0 + a := toNat_ofNat (by omega)
    have hfirst : (UInt8.ofNat (0x80 + b)).toNat = 0x80 + b := toNat_ofNat (by omega)
    have hsecond : (UInt8.ofNat (0x80 + d)).toNat = 0x80 + d := toNat_ofNat (by omega)
    refine (between_lead (by omega) (by rw [hbyte, lead?_three ha])).trans
      (inside_further.2 ⟨_, _, rfl, by split <;> omega, by split <;> omega,
        inside_last.2 ⟨_, bytes, behind, rfl, by omega, by omega, h _, ?_⟩⟩)
    rw [toNat_continuation hb, toNat_continuation hd]
  · rw [utf8EncodeChar_four hlow hhigh hb hd he]
    have hbyte : (UInt8.ofNat (0xf0 + a)).toNat = 0xf0 + a := toNat_ofNat (by omega)
    have hfirst : (UInt8.ofNat (0x80 + b)).toNat = 0x80 + b := toNat_ofNat (by omega)
    have hsecond : (UInt8.ofNat (0x80 + d)).toNat = 0x80 + d := toNat_ofNat (by omega)
    have hthird : (UInt8.ofNat (0x80 + e)).toNat = 0x80 + e := toNat_ofNat (by omega)
    refine (between_lead (by omega) (by rw [hbyte, lead?_four (by omega)])).trans
      (inside_further.2 ⟨_, _, rfl, by split <;> omega, by split <;> omega,
        inside_further.2 ⟨_, _, rfl, by omega, by omega,
          inside_last.2 ⟨_, bytes, behind, rfl, by omega, by omega, h _, ?_⟩⟩⟩)
    rw [toNat_continuation hb, toNat_continuation hd, toNat_continuation he]

end Character

/-! ## A text -/

theorem between_flatMap (chars : List Char) : ∀ offset,
    between offset (chars.flatMap String.utf8EncodeChar) = .ok chars := by
  induction chars with
  | nil => intro offset; rfl
  | cons c chars ih => exact between_written c ih

/-- What is read is written as the bytes, by induction on their number. -/
theorem eq_flatMap_of_between : ∀ {bytes : List UInt8} {offset : Nat} {chars : List Char},
    between offset bytes = .ok chars → bytes = chars.flatMap String.utf8EncodeChar
  | [], _, _, h => by
    cases h
    rfl
  | byte :: bytes, _, _, h => by
    obtain ⟨c, rest, behind, further, hbytes, hrest, rfl⟩ := exists_written_of_between h
    have hshorter : rest.length < (byte :: bytes).length := by
      have hpos := List.length_pos_iff.2 (String.utf8EncodeChar_ne_nil (c := c))
      rw [hbytes, List.length_append]
      omega
    rw [hbytes, eq_flatMap_of_between hrest, List.flatMap_cons]
termination_by bytes => bytes.length
decreasing_by exact hshorter

/-- **Bytes are read as a text exactly if they are its bytes.** -/
theorem decode_eq_ok_iff {bytes : List UInt8} {text : String} :
    decode bytes = .ok text ↔ bytes = text.toUTF8.toList := by
  rw [toList_toUTF8, decode]
  constructor
  · rcases hread : between 0 bytes with flaw | chars
    · nofun
    · intro h
      obtain rfl := Except.ok.inj h
      rw [String.toList_ofList, eq_flatMap_of_between hread]
  · rintro rfl
    rw [between_flatMap]
    exact congrArg Except.ok String.ofList_toList

/-- A text is read from its bytes. -/
theorem decode_toUTF8 (text : String) : decode text.toUTF8.toList = .ok text :=
  decode_eq_ok_iff.2 rfl

end ScriptFrontend.Utf8
