import Mathlib.Data.Nat.Init
import ScriptFrontend.Json.Reader

/-!
# Proofs/Json/Reading — the readers of JSON as equations

Every reader answers with what is left of its text and with the proof that this is shorter, which
its own recursion needs and nobody else does.  `Part.outcome` forgets the proof.  Each reader has
one equation here that gives its outcome by those of the readers it calls; whatever is said of the
readers is said through these equations.
-/

namespace ScriptFrontend.Json

variable {α β : Type} {text small large : List Char}

/-! ## Outcomes -/

/-- What was read of a text and what is left of it, or why not. -/
def Part.outcome (part : Part α text) : Except JsonFlaw (α × List Char) :=
  match part with
  | .ok (a, rest) => .ok (a, rest.1)
  | .error flaw => .error flaw

@[simp] theorem Part.outcome_ok (a : α) (rest : Shorter text) :
    Part.outcome (.ok (a, rest) : Part α text) = .ok (a, rest.1) := rfl

@[simp] theorem Part.outcome_error (flaw : JsonFlaw) :
    Part.outcome (.error flaw : Part α text) = .error flaw := rfl

@[simp] theorem Part.outcome_weaken (h : small.length ≤ large.length) (part : Part α small) :
    (part.weaken h).outcome = part.outcome := by
  rcases part with flaw | ⟨a, rest⟩ <;> rfl

/-- What comes of an outcome when a function is applied to what was read. -/
def onRead (f : α → β) : Except JsonFlaw (α × List Char) → Except JsonFlaw (β × List Char)
  | .ok (a, rest) => .ok (f a, rest)
  | .error flaw => .error flaw

@[simp] theorem onRead_ok (f : α → β) (a : α) (rest : List Char) :
    onRead f (.ok (a, rest)) = .ok (f a, rest) := rfl

@[simp] theorem onRead_error (f : α → β) (flaw : JsonFlaw) :
    onRead f (.error flaw) = .error flaw := rfl

theorem onRead_eq_ok_iff {f : α → β} {outcome : Except JsonFlaw (α × List Char)} {b : β}
    {rest : List Char} :
    onRead f outcome = .ok (b, rest) ↔ ∃ a, outcome = .ok (a, rest) ∧ f a = b := by
  rcases outcome with flaw | ⟨a, left⟩
  · simp
  · simp only [onRead_ok, Except.ok.injEq, Prod.mk.injEq]
    constructor
    · rintro ⟨rfl, rfl⟩
      exact ⟨a, ⟨rfl, rfl⟩, rfl⟩
    · rintro ⟨_, ⟨rfl, rfl⟩, rfl⟩
      exact ⟨rfl, rfl⟩

@[simp] theorem Part.outcome_map (f : α → β) (part : Part α text) :
    (part.map f).outcome = onRead f part.outcome := by
  rcases part with flaw | ⟨a, rest⟩ <;> rfl

/-- What is left is shorter. -/
theorem Part.length_of_outcome {part : Part α text} {a : α} {rest : List Char}
    (h : part.outcome = .ok (a, rest)) : rest.length < text.length := by
  rcases part with flaw | ⟨b, left⟩
  · simp at h
  · obtain rfl : left.1 = rest := (Prod.mk.inj (Except.ok.inj h)).2
    exact left.2

/-! ## Arrays and objects -/

variable {inner : ValueReader}

theorem outcome_items (read : List Json) (text : List Char) :
    (items inner read text).outcome =
      match (inner (skipGap text)).outcome with
      | .error flaw => .error flaw
      | .ok (item, behind) =>
        match skipGap behind with
        | ',' :: rest => (items inner (item :: read) rest).outcome
        | ']' :: rest => .ok ((item :: read).reverse, rest)
        | _ => .error .malformed := by
  rw [items]
  rcases inner (skipGap text) with flaw | ⟨item, behind⟩
  · rfl
  · simp only [Part.outcome_ok]
    split <;> simp_all

theorem outcome_memberName (text : List Char) :
    (memberName text).outcome =
      match skipGap text with
      | '"' :: rest =>
        match (textBody [] rest).outcome with
        | .error flaw => .error flaw
        | .ok (name, behind) =>
          match skipGap behind with
          | ':' :: rest => .ok (String.ofList name, rest)
          | _ => .error .malformed
      | _ => .error .malformed := by
  unfold memberName
  split
  next rest bound heq _ =>
    simp only [heq]
    rcases textBody [] rest with flaw | ⟨name, behind⟩
    · rfl
    · simp only [Part.outcome_ok]
      split <;> simp_all
  next bound hnot =>
    split
    next rest heq => exact (hnot rest (heq ▸ bound) heq (proof_irrel_heq _ _)).elim
    next => rfl

theorem outcome_members (read : List (String × Json)) (text : List Char) :
    (members inner read text).outcome =
      match (memberName text).outcome with
      | .error flaw => .error flaw
      | .ok (name, colon) =>
        match (inner (skipGap colon)).outcome with
        | .error flaw => .error flaw
        | .ok (value, behind) =>
          match skipGap behind with
          | ',' :: rest => (members inner (put read name value) rest).outcome
          | '\x7d' :: rest => .ok (put read name value, rest)
          | _ => .error .malformed := by
  rw [members]
  rcases memberName text with flaw | ⟨name, colon⟩
  · rfl
  · simp only [Part.outcome_ok]
    rcases inner (skipGap colon.1) with flaw | ⟨value, behind⟩
    · rfl
    · simp only [Part.outcome_ok]
      split <;> simp_all

theorem outcome_arrayBody (text : List Char) :
    (arrayBody inner text).outcome =
      match skipGap text with
      | ']' :: rest => .ok (.array [], rest)
      | _ => onRead .array (items inner [] text).outcome := by
  unfold arrayBody
  split <;> simp_all

theorem outcome_objectBody (text : List Char) :
    (objectBody inner text).outcome =
      match skipGap text with
      | '\x7d' :: rest => .ok (.object [], rest)
      | _ => onRead .object (members inner [] text).outcome := by
  unfold objectBody
  split <;> simp_all

/-! ## Values -/

variable {longest room : Nat}

/-- A text that starts with neither a bracket nor a brace. -/
def Flat (text : List Char) : Prop := ∀ rest, text ≠ '[' :: rest ∧ text ≠ '\x7b' :: rest

theorem value_flat (h : Flat text) : value longest room text = scalar longest text := by
  unfold value
  split
  · exact absurd rfl (h _).1
  · exact absurd rfl (h _).2
  · exact absurd rfl (h _).1
  · exact absurd rfl (h _).2
  · rfl

theorem outcome_value_array (rest : List Char) :
    (value longest (room + 1) ('[' :: rest)).outcome =
      (arrayBody (value longest room) rest).outcome := by
  simp [value]

theorem outcome_value_object (rest : List Char) :
    (value longest (room + 1) ('\x7b' :: rest)).outcome =
      (objectBody (value longest room) rest).outcome := by
  simp [value]

theorem outcome_unsigned (negative : Bool) (text : List Char) :
    (unsigned longest negative text).outcome =
      let whole := wholeDigits text
      let fraction := digitsBehind '.' whole.2
      let exponent := exponent? fraction.2
      if whole.1 = [] then .error .malformed
      else if fraction.1 = [] ∧ exponent.1 = none then
        if whole.1.length > longest then .error (.longInteger whole.1.length)
        else
          let size : Int := decimalNumber whole.1
          .ok (.int (if negative then -size else size), exponent.2)
      else
        .ok (.float (Binary64.ofDecimal negative (decimalNumber (whole.1 ++ fraction.1))
          (exponent.1.getD 0 - fraction.1.length)), exponent.2) := by
  unfold unsigned
  dsimp only
  split
  · rfl
  · split
    · split <;> rfl
    · rfl

theorem readWithin_eq (limits : Limits) (text : String) :
    readWithin limits text =
      match (value limits.digits limits.depth (skipGap text.toList)).outcome with
      | .error flaw => .error flaw
      | .ok (json, rest) => if (skipGap rest).isEmpty then .ok json else .error .malformed := by
  rw [readWithin]
  rcases value limits.digits limits.depth (skipGap text.toList) with flaw | ⟨json, rest⟩ <;> rfl

end ScriptFrontend.Json
