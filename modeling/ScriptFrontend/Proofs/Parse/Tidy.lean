import ScriptFrontend.Proofs.Parse.Congruence
import ScriptFrontend.Proofs.Parse.Program

/-!
# Proofs/Parse/Tidy — what is left is a back of the list

A parser is **tidy** if whatever it leaves is a back of the list that it was given, and if it fails
with `oneDefault` only in front of a token (`Tidy`).  Being tidy is kept by every way of putting
parsers together, so all parsers of the language are tidy, the productions behind heads of any kind
(`tidy_production`): nothing is asked of the token in front of them.
-/

namespace ScriptFrontend

namespace Parser

variable {α β σ : Type} {p : Parser α} {q : Parser β}

/-- **What is left is a back of the list**, and it starts with the second default if that is the
one that is refused. -/
structure Tidy (p : Parser α) : Prop where
  suffix : ∀ {tokens answer rest}, p.read tokens = (answer, rest) → rest <:+ tokens
  atToken : ∀ {tokens rest}, p.read tokens = (.error .oneDefault, rest) → rest ≠ []

/-! ## Single parsers -/

theorem tidy_fail {e : Expectation} (he : e ≠ .oneDefault) : Tidy (fail e : Parser α) where
  suffix {tokens answer rest} h := by
    obtain ⟨-, rfl⟩ : .error e = answer ∧ tokens = rest := by simpa using h
    exact List.suffix_refl _
  atToken h := absurd (by simpa using congrArg Prod.fst h) he

theorem tidy_take (kind : Kind) {e : Expectation} (he : e ≠ .oneDefault) :
    Tidy (take kind e) where
  suffix {tokens answer rest} hread := by
    cases answer with
    | ok token => exact (read_take_eq_ok_iff.1 hread).1 ▸ List.suffix_cons _ _
    | error expected => exact (read_take_eq_error_iff.1 hread).2.1 ▸ List.suffix_refl _
  atToken hread := absurd (read_take_eq_error_iff.1 hread).1.symm he

theorem tidy_skipThrough (close : Kind) {missing : Expectation} (hmissing : missing ≠ .oneDefault) :
    Tidy (skipThrough close missing) where
  suffix {tokens answer rest} h := by
    induction tokens with
    | nil => simp_all
    | cons token behind ih =>
      rw [read_skipThrough_cons] at h
      split at h
      next => exact (Prod.mk.inj h).2 ▸ List.suffix_cons _ _
      next => exact (ih h).trans (List.suffix_cons _ _)
  atToken {tokens rest} h := by
    induction tokens with
    | nil => exact absurd (by simpa using congrArg Prod.fst h) hmissing
    | cons token behind ih =>
      rw [read_skipThrough_cons] at h
      split at h
      next => simp at h
      next => exact ih h

/-! ## One parser after the other -/

theorem Tidy.map (h : Tidy p) (f : α → β) : Tidy (p.map f) where
  suffix {tokens answer rest} hread := by
    rw [read_map] at hread
    obtain ⟨-, rfl⟩ := Prod.mk.inj hread
    exact h.suffix (Prod.eta _).symm
  atToken hread := h.atToken (read_map_eq_error_iff.1 hread)

theorem Tidy.bind {next : α → Parser β} (hp : Tidy p) (hq : ∀ a, Tidy (next a)) :
    Tidy (p >>= next) where
  suffix {tokens answer rest} hread := by
    rw [read_bind] at hread
    rcases p.read_cases tokens with ⟨a, mid, h⟩ | ⟨e, mid, h⟩
    · rw [h] at hread
      exact ((hq a).suffix hread).trans (hp.suffix h)
    · rw [h] at hread
      exact (Prod.mk.inj hread).2 ▸ hp.suffix h
  atToken {tokens rest} hread := by
    rcases read_bind_eq_error_iff.1 hread with ha | ⟨a, mid, -, hb⟩
    · exact hp.atToken ha
    · exact (hq a).atToken hb

/-! ## Choice -/

theorem Tidy.ifNext {yes no : Parser α} (hyes : Tidy yes) (hno : Tidy no) (kind : Kind) :
    Tidy (ifNext kind yes no) where
  suffix {tokens answer rest} hread := by
    rw [read_ifNext] at hread
    split at hread
    · exact hyes.suffix hread
    · exact hno.suffix hread
  atToken {tokens rest} hread := by
    rw [read_ifNext] at hread
    split at hread
    · exact hyes.atToken hread
    · exact hno.atToken hread

/-- Where a token is refused, it is left. -/
theorem Tidy.refuseNext {no : Parser α} (hno : Tidy no) (kind : Kind) (e : Expectation) :
    Tidy (Parser.ifNext kind (fail e) no) where
  suffix {tokens answer rest} hread := by
    rw [read_ifNext] at hread
    split at hread
    · exact (Prod.mk.inj hread).2 ▸ List.suffix_refl _
    · exact hno.suffix hread
  atToken {tokens rest} hread := by
    rw [read_ifNext] at hread
    split at hread
    next hkind =>
      obtain rfl : tokens = rest := (Prod.mk.inj hread).2
      rintro rfl
      simp at hkind
    next => exact hno.atToken hread

theorem Tidy.thenIf (hp : Tidy p) (hq : Tidy q) (kind : Kind) : Tidy (p.thenIf kind q) where
  suffix {tokens answer rest} hread := by
    have behind {t : Token} {mid : List Token} (h : rest <:+ mid) (h' : t :: mid <:+ tokens) :
        rest <:+ tokens := (h.trans (List.suffix_cons _ _)).trans h'
    cases answer with
    | ok x =>
      rcases read_thenIf_eq_ok_iff.1 hread with ⟨a, ha, -, -⟩ | ⟨a, t, mid, b, ha, -, hb, -⟩
      · exact hp.suffix ha
      · exact behind (hq.suffix hb) (hp.suffix ha)
    | error e =>
      rcases read_thenIf_eq_error_iff.1 hread with ha | ⟨a, t, mid, ha, -, hb⟩
      · exact hp.suffix ha
      · exact behind (hq.suffix hb) (hp.suffix ha)
  atToken {tokens rest} hread := by
    rcases read_thenIf_eq_error_iff.1 hread with ha | ⟨a, t, mid, -, -, hb⟩
    · exact hp.atToken ha
    · exact hq.atToken hb

/-! ## Repetition

Both loops are followed by induction on what is left. -/

section While

variable {test : Kind → Bool} {combine : α → Token → β → α}

/-- Behind the first operand a loop leaves a back of the list, with a token if that is refused. -/
theorem tidy_readWhile (hq : Tidy q) {answer : Except Expectation α} {rest : List Token} :
    ∀ (tokens : List Token) (a : α), readWhile test q combine a tokens = (answer, rest) →
      rest <:+ tokens ∧ (answer = .error .oneDefault → rest ≠ [])
  | [], a, hread => by
    obtain ⟨rfl, rfl⟩ : .ok a = answer ∧ [] = rest := by simpa using hread
    simp
  | token :: behind, a, hread => by
    rw [readWhile_cons] at hread
    split at hread
    next =>
      rcases h : q.read behind with ⟨e | b, left⟩
      · rw [h] at hread
        obtain ⟨rfl, rfl⟩ : .error e = answer ∧ left = rest := by simpa using hread
        refine ⟨(hq.suffix h).trans (List.suffix_cons _ _), fun he => ?_⟩
        obtain rfl := Except.error.inj he
        exact hq.atToken h
      · rw [h] at hread
        obtain ⟨hsuffix, htoken⟩ := tidy_readWhile hq left _ hread
        exact ⟨(hsuffix.trans (hq.suffix h)).trans (List.suffix_cons _ _), htoken⟩
    next =>
      obtain ⟨rfl, rfl⟩ : .ok a = answer ∧ token :: behind = rest := by simpa using hread
      simp
termination_by tokens => tokens.length
decreasing_by
  have := length_read h
  simp only [List.length_cons]
  omega

theorem Tidy.foldWhile (hp : Tidy p) (hq : Tidy q) : Tidy (p.foldWhile test q combine) where
  suffix {tokens answer rest} hread := by
    rw [read_foldWhile] at hread
    rcases p.read_cases tokens with ⟨a, mid, h⟩ | ⟨e, mid, h⟩
    · rw [h] at hread
      exact (tidy_readWhile hq mid a hread).1.trans (hp.suffix h)
    · rw [h] at hread
      exact (Prod.mk.inj hread).2 ▸ hp.suffix h
  atToken {tokens rest} hread := by
    rw [read_foldWhile] at hread
    rcases p.read_cases tokens with ⟨a, mid, h⟩ | ⟨e, mid, h⟩
    · rw [h] at hread
      exact (tidy_readWhile hq mid a hread).2 rfl
    · rw [h] at hread
      obtain ⟨rfl, rfl⟩ : e = .oneDefault ∧ mid = rest := by simpa using hread
      exact hp.atToken h

end While

section Until

variable {close : Kind} {missing : Expectation} {step : σ → Parser σ}

theorem tidy_readUntil (hmissing : missing ≠ .oneDefault) (hstep : ∀ s, Tidy (step s))
    {answer : Except Expectation σ} {rest : List Token} :
    ∀ (tokens : List Token) (s : σ), readUntil close missing step s tokens = (answer, rest) →
      rest <:+ tokens ∧ (answer = .error .oneDefault → rest ≠ [])
  | [], s, hread => by
    obtain ⟨rfl, rfl⟩ : .error missing = answer ∧ [] = rest := by simpa using hread
    exact ⟨List.suffix_refl _, fun he => absurd (Except.error.inj he) hmissing⟩
  | token :: behind, s, hread => by
    rw [readUntil_cons] at hread
    split at hread
    next =>
      obtain ⟨rfl, rfl⟩ : .ok s = answer ∧ behind = rest := by simpa using hread
      simp
    next =>
      rcases h : (step s).read (token :: behind) with ⟨e | t, left⟩
      · rw [h] at hread
        obtain ⟨rfl, rfl⟩ : .error e = answer ∧ left = rest := by simpa using hread
        refine ⟨(hstep s).suffix h, fun he => ?_⟩
        obtain rfl := Except.error.inj he
        exact (hstep s).atToken h
      · rw [h] at hread
        obtain ⟨hsuffix, htoken⟩ := tidy_readUntil hmissing hstep left t hread
        exact ⟨hsuffix.trans ((hstep s).suffix h), htoken⟩
termination_by tokens => tokens.length
decreasing_by exact length_read h

theorem Tidy.foldUntil (hmissing : missing ≠ .oneDefault) (hstep : ∀ s, Tidy (step s)) (s : σ) :
    Tidy (foldUntil close missing step s) where
  suffix hread := (tidy_readUntil hmissing hstep _ s hread).1
  atToken hread := (tidy_readUntil hmissing hstep _ s hread).2 rfl

end Until

/-! ## The parsers of the language -/

/-- **Being tidy is kept by every way of putting parsers together.** -/
theorem congruence_tidy : Congruence fun _ p _ => Tidy p where
  fail he := tidy_fail he
  take _ he := tidy_take _ he
  map f h := h.map f
  bind hp hq := hp.bind hq
  ifNext hyes hno := hyes.ifNext hno _
  refuseNext hno := hno.refuseNext _ _
  thenIf _ hp hq := hp.thenIf hq _
  foldWhile _ hp hq := hp.foldWhile hq
  foldUntil s _ hmissing hstep := .foldUntil hmissing hstep s

theorem tidy_macroRegion (inner : Inner) (head : Token) :
    Tidy (production inner head .macroRegion) :=
  (tidy_take _ (by simp)).bind fun _ => (tidy_take _ (by simp)).bind fun _ =>
    (tidy_skipThrough _ (by simp)).map _

/-- Every production is tidy, whatever the token in front of it. -/
theorem Tidy.production {inner : Inner} (h : InnerRelated (fun _ p _ => Tidy p) inner inner)
    (head : Token) (form : StatementForm) : Tidy (production inner head form) := by
  by_cases hform : form = .macroRegion
  · subst hform
    exact tidy_macroRegion inner head
  · exact congruence_tidy.production h head hform

theorem Tidy.statementWith {inner : Inner} (h : InnerRelated (fun _ p _ => Tidy p) inner inner) :
    Tidy (statementWith inner) where
  suffix {tokens answer rest} hread := by
    rcases tokens with _ | ⟨token, behind⟩
    · simp_all
    rw [read_statementWith_cons] at hread
    split at hread
    next form _ => exact ((Tidy.production h token form).suffix hread).trans (List.suffix_cons _ _)
    next => exact (Prod.mk.inj hread).2 ▸ List.suffix_refl _
  atToken {tokens rest} hread := by
    rcases tokens with _ | ⟨token, behind⟩
    · simp at hread
    rw [read_statementWith_cons] at hread
    split at hread
    next form _ => exact (Tidy.production h token form).atToken hread
    next =>
      obtain ⟨-, rfl⟩ := Prod.mk.inj hread
      simp

/-- **Statements are tidy.** -/
theorem tidy_statement (room : Nat) : Tidy (statement room) :=
  congruence_tidy.statement (fun _ h => .statementWith h) room

theorem tidy_inner (room : Nat) : InnerRelated (fun _ p _ => Tidy p) (inner room) (inner room) :=
  congruence_tidy.inner tidy_statement room

/-- **What the statements of a list leave** is a back of the list, by induction on what is left. -/
theorem tidy_statements {p : Parser Node} (h : Tidy p) :
    ∀ (tokens : List Token) {failure : Failure}, statements p tokens = .error failure →
      failure.remaining <:+ tokens ∧ (failure.expected = .oneDefault → failure.remaining ≠ [])
  | [], failure, hread => by simp at hread
  | token :: rest, failure, hread => by
    rcases statements_cons_error hread with hfirst | ⟨node, behind, hfirst, hbehind⟩
    · exact ⟨h.suffix hfirst, fun he => h.atToken (he ▸ hfirst)⟩
    · obtain ⟨hsuffix, htoken⟩ := tidy_statements h behind hbehind
      exact ⟨hsuffix.trans (h.suffix hfirst), htoken⟩
termination_by tokens => tokens.length
decreasing_by exact length_read hfirst

end Parser

end ScriptFrontend
