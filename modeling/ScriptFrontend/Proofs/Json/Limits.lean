import ScriptFrontend.Proofs.Json.Reading

/-!
# Proofs/Json/Limits — what the limits of reading change

A text can be read without limits, since nothing in it is nested deeper, and no integer in it is
longer, than the text itself (`readFully`): it then holds a value or is malformed
(`readFully_error`).  Reading within limits gives the same, or stops at one of them
(`readWithin_narrows`).

A reader **narrows** another one if it gives the same outcome or stops at a limit.  Arrays and
objects keep this of the readers of their items, so that values with little room narrow those with
more (`narrows_value`), by induction on the room.
-/

namespace ScriptFrontend.Json

/-- **The JSON value that a text holds**, without limits. -/
def readFully (text : String) : Except JsonFlaw Json :=
  readWithin ⟨text.length, text.length⟩ text

/-! ## More room -/

section Narrows

variable {γ δ : Type} {inner wider : ValueReader}

/-- An outcome is the same with wider limits, or stops at a limit. -/
def Narrows (narrow wide : Except JsonFlaw γ) : Prop :=
  narrow = wide ∨ ∃ flaw, flaw ≠ .malformed ∧ narrow = .error flaw

theorem Narrows.onRead {narrow wide : Except JsonFlaw (γ × List Char)} (h : Narrows narrow wide)
    (f : γ → δ) : Narrows (onRead f narrow) (onRead f wide) := by
  rcases h with rfl | ⟨flaw, hflaw, rfl⟩
  · exact .inl rfl
  · exact .inr ⟨flaw, hflaw, rfl⟩

/-- What is left behind an item and a comma is shorter. -/
theorem length_lt_of_skipGap {text behind rest : List Char} {c : Char}
    (hrest : (c :: rest).length ≤ behind.length) (hbehind : behind.length < (skipGap text).length) :
    rest.length < text.length := by
  have := length_skipGap_le text
  rw [List.length_cons] at hrest
  omega

/-- The items of an array, by induction on the length of the text. -/
theorem narrows_items (h : ∀ text, Narrows (inner text).outcome (wider text).outcome) :
    ∀ (read : List Json) (text : List Char),
      Narrows (items inner read text).outcome (items wider read text).outcome
  | read, text => by
    rw [outcome_items, outcome_items]
    rcases h (skipGap text) with heq | ⟨flaw, hflaw, heq⟩
    · rw [heq]
      rcases hitem : (wider (skipGap text)).outcome with flaw | ⟨item, behind⟩
      · exact .inl rfl
      · have hbehind := Part.length_of_outcome hitem
        dsimp only
        split
        next rest hrest =>
          have hshorter := length_lt_of_skipGap (hrest ▸ length_skipGap_le behind) hbehind
          exact narrows_items h (item :: read) rest
        all_goals exact .inl rfl
    · exact .inr ⟨flaw, hflaw, by rw [heq]⟩
termination_by _ text => text.length
decreasing_by exact hshorter

/-- The members of an object, by induction on the length of the text. -/
theorem narrows_members (h : ∀ text, Narrows (inner text).outcome (wider text).outcome) :
    ∀ (read : List (String × Json)) (text : List Char),
      Narrows (members inner read text).outcome (members wider read text).outcome
  | read, text => by
    rw [outcome_members, outcome_members]
    rcases hname : (memberName text).outcome with flaw | ⟨name, colon⟩
    · exact .inl rfl
    have hcolon := Part.length_of_outcome hname
    dsimp only
    rcases h (skipGap colon) with heq | ⟨flaw, hflaw, heq⟩
    · rw [heq]
      rcases hvalue : (wider (skipGap colon)).outcome with flaw | ⟨value, behind⟩
      · exact .inl rfl
      · have hbehind := Part.length_of_outcome hvalue
        dsimp only
        split
        next rest hrest =>
          have hshorter := length_lt_of_skipGap (hrest ▸ length_skipGap_le behind) hbehind
          exact narrows_members h (put read name value) rest
        all_goals exact .inl rfl
    · exact .inr ⟨flaw, hflaw, by rw [heq]⟩
termination_by _ text => text.length
decreasing_by exact Nat.lt_trans hshorter hcolon

theorem narrows_arrayBody (h : ∀ text, Narrows (inner text).outcome (wider text).outcome)
    (text : List Char) : Narrows (arrayBody inner text).outcome (arrayBody wider text).outcome := by
  rw [outcome_arrayBody, outcome_arrayBody]
  split
  · exact .inl rfl
  · exact (narrows_items h [] text).onRead _

theorem narrows_objectBody (h : ∀ text, Narrows (inner text).outcome (wider text).outcome)
    (text : List Char) :
    Narrows (objectBody inner text).outcome (objectBody wider text).outcome := by
  rw [outcome_objectBody, outcome_objectBody]
  split
  · exact .inl rfl
  · exact (narrows_members h [] text).onRead _

variable {longest more room wide : Nat}

theorem narrows_unsigned (h : longest ≤ more) (negative : Bool) (text : List Char) :
    Narrows (unsigned longest negative text).outcome (unsigned more negative text).outcome := by
  rw [outcome_unsigned, outcome_unsigned]
  dsimp only
  split
  · exact .inl rfl
  split
  · by_cases hlong : (wholeDigits text).1.length > longest
    · rw [if_pos hlong]
      exact .inr ⟨_, by simp, rfl⟩
    · rw [if_neg hlong, if_neg (mt (Nat.lt_of_le_of_lt h) hlong)]
      exact .inl rfl
  · exact .inl rfl

theorem narrows_scalar (h : longest ≤ more) (text : List Char) :
    Narrows (scalar longest text).outcome (scalar more text).outcome := by
  unfold scalar
  split
  case h_8 => simpa using narrows_unsigned h true _
  case h_9 => exact narrows_unsigned h false _
  all_goals exact .inl rfl

/-- A text starts with a bracket, with a brace, or with neither. -/
theorem bracket_cases (text : List Char) :
    (∃ rest, text = '[' :: rest) ∨ (∃ rest, text = '\x7b' :: rest) ∨ Flat text := by
  by_cases hbracket : ∃ rest, text = '[' :: rest
  · exact .inl hbracket
  by_cases hbrace : ∃ rest, text = '\x7b' :: rest
  · exact .inr (.inl hbrace)
  exact .inr (.inr fun rest => ⟨fun heq => hbracket ⟨rest, heq⟩, fun heq => hbrace ⟨rest, heq⟩⟩)

/-- **Values within narrower limits**, by induction on the room. -/
theorem narrows_value (h : longest ≤ more) :
    ∀ {room wide : Nat}, room ≤ wide → ∀ text,
      Narrows (value longest room text).outcome (value more wide text).outcome := by
  intro room
  induction room with
  | zero =>
    intro wide _ text
    rcases bracket_cases text with ⟨rest, rfl⟩ | ⟨rest, rfl⟩ | hflat
    · exact .inr ⟨.tooDeep, by simp, rfl⟩
    · exact .inr ⟨.tooDeep, by simp, rfl⟩
    · rw [value_flat hflat, value_flat hflat]
      exact narrows_scalar h text
  | succ room ih =>
    intro wide hroom text
    obtain ⟨wide, rfl⟩ : ∃ less, wide = less + 1 :=
      Nat.exists_eq_add_one.2 (Nat.lt_of_lt_of_le (Nat.succ_pos _) hroom)
    have hinner := ih (Nat.le_of_succ_le_succ hroom)
    rcases bracket_cases text with ⟨rest, rfl⟩ | ⟨rest, rfl⟩ | hflat
    · rw [outcome_value_array, outcome_value_array]
      exact narrows_arrayBody hinner rest
    · rw [outcome_value_object, outcome_value_object]
      exact narrows_objectBody hinner rest
    · rw [value_flat hflat, value_flat hflat]
      exact narrows_scalar h text

theorem narrows_readWithin {limits wider : Limits} (hdigits : limits.digits ≤ wider.digits)
    (hdepth : limits.depth ≤ wider.depth) (text : String) :
    Narrows (readWithin limits text) (readWithin wider text) := by
  rw [readWithin_eq, readWithin_eq]
  rcases narrows_value hdigits hdepth (skipGap text.toList) with heq | ⟨flaw, hflaw, heq⟩
  · rw [heq]
    exact .inl rfl
  · exact .inr ⟨flaw, hflaw, by rw [heq]⟩

end Narrows

/-! ## Room enough -/

section Ample

variable {γ δ : Type} {inner : ValueReader} {longest room bound : Nat}

/-- An outcome that stops at no limit. -/
def Ample (outcome : Except JsonFlaw γ) : Prop := ∀ flaw, outcome = .error flaw → flaw = .malformed

theorem ample_ok (a : γ) : Ample (.ok a : Except JsonFlaw γ) := nofun

theorem ample_malformed : Ample (.error .malformed : Except JsonFlaw γ) := by
  rintro flaw heq
  exact (Except.error.inj heq).symm

theorem Ample.onRead {outcome : Except JsonFlaw (γ × List Char)} (h : Ample outcome) (f : γ → δ) :
    Ample (onRead f outcome) := by
  rcases outcome with flaw | ⟨a, rest⟩
  · rw [h flaw rfl]
    exact ample_malformed
  · exact ample_ok _

theorem ample_textBody (read text : List Char) : Ample (textBody read text).outcome := by
  fun_induction textBody read text
  case case2 => exact ample_ok _
  case case3 ih | case4 ih | case6 ih | case8 ih | case11 ih => rwa [Part.outcome_weaken]
  all_goals exact ample_malformed

theorem ample_memberName (text : List Char) : Ample (memberName text).outcome := by
  rw [outcome_memberName]
  split
  next rest _ =>
    have hbody := ample_textBody [] rest
    rcases hread : (textBody [] rest).outcome with flaw | ⟨name, behind⟩
    · rw [hbody flaw hread]
      exact ample_malformed
    · dsimp only
      split
      · exact ample_ok _
      · exact ample_malformed
  · exact ample_malformed

/-- Items whose reader stops at no limit, by induction on the length of the text. -/
theorem ample_items (h : ∀ text, text.length ≤ bound → Ample (inner text).outcome) :
    ∀ (read : List Json) (text : List Char), text.length ≤ bound →
      Ample (items inner read text).outcome
  | read, text, hbound => by
    have hitem := h (skipGap text) (Nat.le_trans (length_skipGap_le text) hbound)
    rw [outcome_items]
    rcases hread : (inner (skipGap text)).outcome with flaw | ⟨item, behind⟩
    · rw [hitem flaw hread]
      exact ample_malformed
    · have hbehind := Part.length_of_outcome hread
      dsimp only
      split
      next rest hrest =>
        have hshorter := length_lt_of_skipGap (hrest ▸ length_skipGap_le behind) hbehind
        exact ample_items h (item :: read) rest (Nat.le_trans (Nat.le_of_lt hshorter) hbound)
      · exact ample_ok _
      · exact ample_malformed
termination_by _ text => text.length
decreasing_by exact hshorter

/-- Members whose reader stops at no limit, by induction on the length of the text. -/
theorem ample_members (h : ∀ text, text.length ≤ bound → Ample (inner text).outcome) :
    ∀ (read : List (String × Json)) (text : List Char), text.length ≤ bound →
      Ample (members inner read text).outcome
  | read, text, hbound => by
    rw [outcome_members]
    rcases hname : (memberName text).outcome with flaw | ⟨name, colon⟩
    · rw [ample_memberName text flaw hname]
      exact ample_malformed
    have hcolon := Part.length_of_outcome hname
    have hskip := length_skipGap_le colon
    have hvalue := h (skipGap colon) (by omega)
    dsimp only
    rcases hread : (inner (skipGap colon)).outcome with flaw | ⟨value, behind⟩
    · rw [hvalue flaw hread]
      exact ample_malformed
    · have hbehind := Part.length_of_outcome hread
      dsimp only
      split
      next rest hrest =>
        have hshorter := length_lt_of_skipGap (hrest ▸ length_skipGap_le behind) hbehind
        exact ample_members h (put read name value) rest (by omega)
      · exact ample_ok _
      · exact ample_malformed
termination_by _ text => text.length
decreasing_by omega

theorem ample_arrayBody (h : ∀ text, text.length ≤ bound → Ample (inner text).outcome)
    (text : List Char) (hbound : text.length ≤ bound) : Ample (arrayBody inner text).outcome := by
  rw [outcome_arrayBody]
  split
  · exact ample_ok _
  · exact (ample_items h [] text hbound).onRead _

theorem ample_objectBody (h : ∀ text, text.length ≤ bound → Ample (inner text).outcome)
    (text : List Char) (hbound : text.length ≤ bound) : Ample (objectBody inner text).outcome := by
  rw [outcome_objectBody]
  split
  · exact ample_ok _
  · exact (ample_members h [] text hbound).onRead _

theorem length_wholeDigits_le (text : List Char) : (wholeDigits text).1.length ≤ text.length := by
  unfold wholeDigits
  split
  · simp
  · exact (List.takeWhile_prefix _).length_le

theorem ample_unsigned (negative : Bool) (text : List Char) (h : text.length ≤ longest) :
    Ample (unsigned longest negative text).outcome := by
  have hlength := length_wholeDigits_le text
  rw [outcome_unsigned]
  dsimp only
  split
  · exact ample_malformed
  split
  · rw [if_neg (by omega)]
    exact ample_ok _
  · exact ample_ok _

theorem ample_spelled (word : String) (json : Json) (text : List Char) :
    Ample (spelled word json text).outcome := by
  unfold spelled
  split
  · exact ample_ok _
  · exact ample_malformed

theorem ample_scalar (text : List Char) (h : text.length ≤ longest) :
    Ample (scalar longest text).outcome := by
  unfold scalar
  split
  case h_1 => simpa using (ample_textBody [] _).onRead _
  case h_8 => simpa using ample_unsigned true _ (Nat.le_of_succ_le h)
  case h_9 => exact ample_unsigned false _ h
  all_goals exact ample_spelled _ _ _

/-- **Values whose text is within the limits**, by induction on the room. -/
theorem ample_value : ∀ (room : Nat) (text : List Char), text.length ≤ longest →
    text.length ≤ room → Ample (value longest room text).outcome := by
  intro room
  induction room with
  | zero =>
    intro text hlongest hroom
    obtain rfl := List.length_eq_zero_iff.1 (Nat.le_zero.1 hroom)
    exact ample_scalar [] hlongest
  | succ room ih =>
    intro text hlongest hroom
    have hinner (text : List Char) (hbound : text.length ≤ min longest room) :
        Ample (value longest room text).outcome := ih text (by omega) (by omega)
    rcases bracket_cases text with ⟨rest, rfl⟩ | ⟨rest, rfl⟩ | hflat
    · rw [List.length_cons] at hlongest hroom
      rw [outcome_value_array]
      exact ample_arrayBody hinner rest (by omega)
    · rw [List.length_cons] at hlongest hroom
      rw [outcome_value_object]
      exact ample_objectBody hinner rest (by omega)
    · rw [value_flat hflat]
      exact ample_scalar text hlongest

theorem ample_readWithin {limits : Limits} {text : String} (hdigits : text.length ≤ limits.digits)
    (hdepth : text.length ≤ limits.depth) : Ample (readWithin limits text) := by
  have hlength := length_skipGap_le text.toList
  rw [String.length_toList] at hlength
  have hvalue := ample_value limits.depth (skipGap text.toList) (Nat.le_trans hlength hdigits)
    (Nat.le_trans hlength hdepth)
  rw [readWithin_eq]
  rcases hread : (value limits.digits limits.depth (skipGap text.toList)).outcome with
    flaw | ⟨json, rest⟩
  · rw [hvalue flaw hread]
    exact ample_malformed
  · dsimp only
    split
    · exact ample_ok _
    · exact ample_malformed

end Ample

/-! ## No limits -/

/-- **A text holds a value or is malformed.** -/
theorem readFully_error {text : String} {flaw : JsonFlaw} (h : readFully text = .error flaw) :
    flaw = .malformed :=
  ample_readWithin (Nat.le_refl _) (Nat.le_refl _) flaw h

/-- **Limits change nothing but what stops at one of them.** -/
theorem readWithin_narrows (limits : Limits) (text : String) :
    Narrows (readWithin limits text) (readFully text) := by
  have hwide : Narrows (readFully text)
      (readWithin ⟨max limits.depth text.length, max limits.digits text.length⟩ text) :=
    narrows_readWithin (Nat.le_max_right _ _) (Nat.le_max_right _ _) text
  have hnarrow : Narrows (readWithin limits text)
      (readWithin ⟨max limits.depth text.length, max limits.digits text.length⟩ text) :=
    narrows_readWithin (Nat.le_max_left _ _) (Nat.le_max_left _ _) text
  rcases hwide with heq | ⟨flaw, hne, heq⟩
  · rwa [heq]
  · exact absurd (readFully_error heq) hne

/-- What stops at a limit is not what the text holds. -/
theorem readWithin_ne_iff {limits : Limits} {text : String} :
    readWithin limits text ≠ readFully text ↔
      ∃ flaw, flaw ≠ .malformed ∧ readWithin limits text = .error flaw := by
  constructor
  · exact (readWithin_narrows limits text).resolve_left
  · rintro ⟨flaw, hne, hflaw⟩ heq
    exact hne (readFully_error (heq ▸ hflaw))

/-! ## Many brackets -/

theorem value_brackets (longest room : Nat) (rest : List Char) :
    (value longest room (List.replicate (room + 1) '[' ++ rest)).outcome = .error .tooDeep := by
  induction room with
  | zero => rfl
  | succ room ih =>
    rw [List.replicate_succ, List.cons_append, outcome_value_array, outcome_arrayBody]
    have hskip : skipGap (List.replicate (room + 1) '[' ++ rest) =
        List.replicate (room + 1) '[' ++ rest := by
      simp [List.replicate_succ, skipGap, isGap]
    rw [hskip, outcome_items, hskip, ih]
    simp [List.replicate_succ]

/-- **More opening brackets than there is room for** are too many. -/
theorem readWithin_brackets (limits : Limits) (rest : List Char) :
    readWithin limits (String.ofList (List.replicate (limits.depth + 1) '[' ++ rest)) =
      .error .tooDeep := by
  have hskip : skipGap (List.replicate (limits.depth + 1) '[' ++ rest) =
      List.replicate (limits.depth + 1) '[' ++ rest := by
    simp [List.replicate_succ, skipGap, isGap]
  rw [readWithin_eq, String.toList_ofList, hskip, value_brackets]

end ScriptFrontend.Json
