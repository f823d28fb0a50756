import Mathlib.Data.Nat.Digits.Defs
import ScriptFrontend.Json.Shown
import ScriptFrontend.Proofs.Json.Limits

/-!
# Proofs/Json/Shown — which values can be shown

A value is `Showable` if arrays and objects are nested in it no deeper than a limit and its integers
have no more digits than one that is read; exactly these are shown (`shown_iff_showable`).

Reading keeps to such limits itself, so every value that is read can be shown
(`showable_of_readWithin`): what holds of the values that a reader yields holds of the items and
members that are read by it (`Yields`), by induction on the room.
-/

namespace ScriptFrontend.Json

/-- **A value can be shown** within a limit. -/
inductive Showable : (limit : Nat) → Json → Prop where
  | null (limit : Nat) : Showable limit .null
  | bool (limit : Nat) (value : Bool) : Showable limit (.bool value)
  | int {limit : Nat} {value : Int} :
    (Nat.toDigits 10 value.natAbs).length ≤ longestInteger → Showable limit (.int value)
  | float (limit : Nat) (value : Binary64) : Showable limit (.float value)
  | string (limit : Nat) (value : String) : Showable limit (.string value)
  | array {limit : Nat} {items : List Json} :
    (∀ item ∈ items, Showable limit item) → Showable (limit + 1) (.array items)
  | object {limit : Nat} {members : List (String × Json)} :
    (∀ member ∈ members, Showable limit member.2) → Showable (limit + 1) (.object members)

/-- What can be shown within a limit can be within a wider one. -/
theorem Showable.mono {limit wider : Nat} {json : Json} (h : Showable limit json)
    (hle : limit ≤ wider) : Showable wider json := by
  induction h generalizing wider with
  | null => exact .null _
  | bool => exact .bool _ _
  | int hdigits => exact .int hdigits
  | float => exact .float _ _
  | string => exact .string _ _
  | array _ ih =>
    obtain ⟨less, rfl⟩ := Nat.exists_eq_add_one.2 (Nat.lt_of_lt_of_le (Nat.succ_pos _) hle)
    exact .array fun item hitem => ih item hitem (Nat.le_of_succ_le_succ hle)
  | object _ ih =>
    obtain ⟨less, rfl⟩ := Nat.exists_eq_add_one.2 (Nat.lt_of_lt_of_le (Nat.succ_pos _) hle)
    exact .object fun member hmember => ih member hmember (Nat.le_of_succ_le_succ hle)

section

variable {limit : Nat}

theorem shownItems_iff {items : List Json} :
    (∃ texts, shownItems limit items = .ok texts) ↔
      ∀ item ∈ items, ∃ text, item.shown limit = .ok text := by
  induction items with
  | nil => simp [shownItems]
  | cons item rest ih =>
    rw [List.forall_mem_cons, ← ih, shownItems]
    cases item.shown limit <;> cases shownItems limit rest <;>
      simp [bind, Except.bind, pure, Except.pure]

theorem shownMembers_iff {members : List (String × Json)} :
    (∃ texts, shownMembers limit members = .ok texts) ↔
      ∀ member ∈ members, ∃ text, member.2.shown limit = .ok text := by
  induction members with
  | nil => simp [shownMembers]
  | cons member rest ih =>
    rw [List.forall_mem_cons, ← ih, shownMembers]
    cases member.2.shown limit <;> cases shownMembers limit rest <;>
      simp [bind, Except.bind, pure, Except.pure]

theorem shown_array_iff {items : List Json} :
    (∃ text, (array items).shown (limit + 1) = .ok text) ↔
      ∀ item ∈ items, ∃ text, item.shown limit = .ok text := by
  rw [← shownItems_iff, shown]
  cases shownItems limit items <;> simp [bind, Except.bind, pure, Except.pure]

theorem shown_object_iff {members : List (String × Json)} :
    (∃ text, (object members).shown (limit + 1) = .ok text) ↔
      ∀ member ∈ members, ∃ text, member.2.shown limit = .ok text := by
  rw [← shownMembers_iff, shown]
  cases shownMembers limit members <;> simp [bind, Except.bind, pure, Except.pure]

end

theorem shown_of_showable {limit : Nat} {json : Json} (h : Showable limit json) :
    ∃ text, json.shown limit = .ok text := by
  induction h with
  | null | bool | float | string => simp [shown]
  | int hdigits => exact ⟨_, by rw [shown]; exact if_neg (Nat.not_lt.2 hdigits)⟩
  | array _ ih => exact shown_array_iff.2 ih
  | object _ ih => exact shown_object_iff.2 ih

theorem showable_of_shown : ∀ {limit : Nat} {json : Json},
    (∃ text, json.shown limit = .ok text) → Showable limit json
  | _, .null, _ => .null _
  | _, .bool value, _ => .bool _ value
  | _, .int value, h => by
    refine .int (Nat.not_lt.1 fun hlong => ?_)
    obtain ⟨text, htext⟩ := h
    rw [shown, shownInteger, if_pos hlong] at htext
    cases htext
  | _, .float value, _ => .float _ value
  | _, .string value, _ => .string _ value
  | 0, .array items, h => by simp [shown] at h
  | 0, .object members, h => by simp [shown] at h
  | limit + 1, .array items, h => .array fun item hitem =>
    showable_of_shown (shown_array_iff.1 h item hitem)
  | limit + 1, .object members, h => .object fun member hmember =>
    showable_of_shown (shown_object_iff.1 h member hmember)

/-- **Exactly the showable values are shown.** -/
theorem shown_iff_showable {limit : Nat} {json : Json} :
    (∃ text, json.shown limit = .ok text) ↔ Showable limit json :=
  ⟨showable_of_shown, shown_of_showable⟩

/-- A text is shown in any case, and any other value if it is showable. -/
theorem bare_of_showable {limit : Nat} {json : Json} (h : Showable limit json) :
    ∃ text, json.bare limit = .ok text := by
  cases json with
  | string word => exact ⟨word, rfl⟩
  | _ => exact shown_of_showable h

/-! ## Integers -/

/-- Digits spell a number with no more digits. -/
theorem decimalNumber_lt {digits : List Char} (h : ∀ c ∈ digits, c.isDigit = true) :
    decimalNumber digits < 10 ^ digits.length := by
  have hfold : ∀ (digits : List Char) (start : Nat), (∀ c ∈ digits, c.isDigit = true) →
      digits.foldl (fun value c => value * 10 + (c.toNat - 48)) start <
        (start + 1) * 10 ^ digits.length := by
    intro digits
    induction digits with
    | nil => simp
    | cons c rest ih =>
      intro start hall
      obtain ⟨hc, hrest⟩ := List.forall_mem_cons.1 hall
      have hle : c.toNat - 48 ≤ 9 := by
        have hbounds : 48 ≤ c.toNat ∧ c.toNat ≤ 57 := Char.isDigit_iff_toNat.1 hc
        omega
      refine Nat.lt_of_lt_of_le (ih _ hrest) ?_
      rw [List.length_cons, Nat.pow_succ', ← Nat.mul_assoc]
      exact Nat.mul_le_mul_right _ (by dsimp only; omega)
  simpa [decimalNumber] using hfold digits 0 h

theorem isDigit_wholeDigits (text : List Char) :
    ∀ c ∈ (wholeDigits text).1, c.isDigit = true := by
  unfold wholeDigits
  split
  · simp
  · exact List.all_eq_true.1 List.all_takeWhile

/-- A number that is read can be shown. -/
theorem showable_unsigned {longest limit : Nat} (hlongest : longest ≤ longestInteger)
    {negative : Bool} {text rest : List Char} {json : Json}
    (h : (unsigned longest negative text).outcome = .ok (json, rest)) : Showable limit json := by
  have hnumber := decimalNumber_lt (isDigit_wholeDigits text)
  rw [outcome_unsigned] at h
  dsimp only at h
  split at h
  next => cases h
  next hne =>
    split at h
    next =>
      split at h
      next => cases h
      next hshort =>
        obtain ⟨rfl, -⟩ := Prod.mk.inj (Except.ok.inj h)
        have hlength : (Nat.toDigits 10 (decimalNumber (wholeDigits text).1)).length ≤
            (wholeDigits text).1.length :=
          Nat.toDigits_length 10 _ _ (List.length_pos_iff.2 hne) hnumber
        refine .int ?_
        cases negative <;> simp <;> omega
    next =>
      obtain ⟨rfl, -⟩ := Prod.mk.inj (Except.ok.inj h)
      exact .float _ _

/-! ## Readers -/

/-- **A property of every value that a reader yields.** -/
def Yields (property : Json → Prop) (reader : ValueReader) : Prop :=
  ∀ text json rest, (reader text).outcome = .ok (json, rest) → property json

section

variable {property : Json → Prop} {inner : ValueReader}

theorem Yields.items (h : Yields property inner) :
    ∀ (read : List Json) (text : List Char) (list : List Json) (rest : List Char),
      (∀ item ∈ read, property item) → (items inner read text).outcome = .ok (list, rest) →
        ∀ item ∈ list, property item
  | read, text, list, rest, hread, hlist => by
    rw [outcome_items] at hlist
    rcases hitem : (inner (skipGap text)).outcome with flaw | ⟨item, behind⟩
    · rw [hitem] at hlist
      cases hlist
    · rw [hitem] at hlist
      have hbehind := Part.length_of_outcome hitem
      have hall : ∀ other ∈ item :: read, property other :=
        List.forall_mem_cons.2 ⟨h _ _ _ hitem, hread⟩
      dsimp only at hlist
      split at hlist
      next further hfurther =>
        have hshorter := length_lt_of_skipGap (hfurther ▸ length_skipGap_le behind) hbehind
        exact Yields.items h (item :: read) further list rest hall hlist
      next =>
        obtain ⟨rfl, -⟩ := Prod.mk.inj (Except.ok.inj hlist)
        exact fun other hmem => hall other (List.mem_reverse.1 hmem)
      next => cases hlist
termination_by _ text => text.length
decreasing_by exact hshorter

theorem forall_mem_put {read : List (String × Json)} {value : Json}
    (hread : ∀ member ∈ read, property member.2) (hvalue : property value) (name : String) :
    ∀ member ∈ put read name value, property member.2 := by
  induction read with
  | nil => simpa [put] using hvalue
  | cons first read ih =>
    obtain ⟨hfirst, hrest⟩ := List.forall_mem_cons.1 hread
    rw [put]
    split
    · exact List.forall_mem_cons.2 ⟨hvalue, hrest⟩
    · exact List.forall_mem_cons.2 ⟨hfirst, ih hrest⟩

theorem Yields.members (h : Yields property inner) :
    ∀ (read : List (String × Json)) (text : List Char) (list : List (String × Json))
      (rest : List Char), (∀ member ∈ read, property member.2) →
        (members inner read text).outcome = .ok (list, rest) →
          ∀ member ∈ list, property member.2
  | read, text, list, rest, hread, hlist => by
    rw [outcome_members] at hlist
    rcases hname : (memberName text).outcome with flaw | ⟨name, colon⟩
    · rw [hname] at hlist
      cases hlist
    rw [hname] at hlist
    have hcolon := Part.length_of_outcome hname
    dsimp only at hlist
    rcases hvalue : (inner (skipGap colon)).outcome with flaw | ⟨value, behind⟩
    · rw [hvalue] at hlist
      cases hlist
    · rw [hvalue] at hlist
      have hbehind := Part.length_of_outcome hvalue
      have hall := forall_mem_put hread (h _ _ _ hvalue) name
      dsimp only at hlist
      split at hlist
      next further hfurther =>
        have hshorter := length_lt_of_skipGap (hfurther ▸ length_skipGap_le behind) hbehind
        exact Yields.members h _ further list rest hall hlist
      next =>
        obtain ⟨rfl, -⟩ := Prod.mk.inj (Except.ok.inj hlist)
        exact hall
      next => cases hlist
termination_by _ text => text.length
decreasing_by exact Nat.lt_trans hshorter hcolon

end

/-! ## Values -/

variable {longest : Nat}

theorem showable_spelled {limit : Nat} {word : String} {value json : Json} {text rest : List Char}
    (hvalue : Showable limit value) (h : (spelled word value text).outcome = .ok (json, rest)) :
    Showable limit json := by
  unfold spelled at h
  split at h
  · obtain ⟨rfl, -⟩ := Prod.mk.inj (Except.ok.inj h)
    exact hvalue
  · cases h

theorem showable_scalar (hlongest : longest ≤ longestInteger) {limit : Nat} {text rest : List Char}
    {json : Json} (h : (scalar longest text).outcome = .ok (json, rest)) : Showable limit json := by
  unfold scalar at h
  split at h
  case h_1 =>
    rw [Part.outcome_map, onRead_eq_ok_iff] at h
    obtain ⟨body, -, rfl⟩ := h
    exact .string _ _
  case h_2 => exact showable_spelled (.null _) h
  case h_3 | h_4 => exact showable_spelled (.bool _ _) h
  case h_8 => exact showable_unsigned hlongest (by simpa using h)
  case h_9 => exact showable_unsigned hlongest h
  all_goals exact showable_spelled (.float _ _) h

/-- **A value that is read can be shown**, by induction on the room. -/
theorem yields_value (hlongest : longest ≤ longestInteger) (room : Nat) :
    Yields (Showable room) (value longest room) := by
  induction room with
  | zero =>
    intro text json rest h
    rcases bracket_cases text with ⟨behind, rfl⟩ | ⟨behind, rfl⟩ | hflat
    · cases h
    · cases h
    · rw [value_flat hflat] at h
      exact showable_scalar hlongest h
  | succ room ih =>
    intro text json rest h
    rcases bracket_cases text with ⟨behind, rfl⟩ | ⟨behind, rfl⟩ | hflat
    · rw [outcome_value_array, outcome_arrayBody] at h
      split at h
      next =>
        obtain ⟨rfl, -⟩ := Prod.mk.inj (Except.ok.inj h)
        exact .array (by simp)
      next =>
        obtain ⟨list, hlist, rfl⟩ := onRead_eq_ok_iff.1 h
        exact .array (ih.items [] behind list rest (by simp) hlist)
    · rw [outcome_value_object, outcome_objectBody] at h
      split at h
      next =>
        obtain ⟨rfl, -⟩ := Prod.mk.inj (Except.ok.inj h)
        exact .object (by simp)
      next =>
        obtain ⟨list, hlist, rfl⟩ := onRead_eq_ok_iff.1 h
        exact .object (ih.members [] behind list rest (by simp) hlist)
    · rw [value_flat hflat] at h
      exact showable_scalar hlongest h

/-- **What a text holds can be shown**, if it has been read within limits that are no wider. -/
theorem showable_of_readWithin {limits : Limits} {text : String} {json : Json}
    (hdigits : limits.digits ≤ longestInteger) (h : readWithin limits text = .ok json) :
    Showable limits.depth json := by
  rw [readWithin_eq] at h
  rcases hvalue : (value limits.digits limits.depth (skipGap text.toList)).outcome with
    flaw | ⟨read, rest⟩
  · rw [hvalue] at h
    cases h
  · rw [hvalue] at h
    dsimp only at h
    split at h
    · obtain rfl := Except.ok.inj h
      exact yields_value hdigits limits.depth _ _ _ hvalue
    · cases h

end ScriptFrontend.Json
