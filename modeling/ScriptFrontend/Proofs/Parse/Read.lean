import ScriptFrontend.Parse.Statement

/-!
# Proofs/Parse/Read — what a parser answers, and the tokens it leaves

`Parser.read` forgets the bound that an outcome carries: a parser answers with a value or with an
expectation, and either way leaves tokens, from the offending one on after a failure.  Each way of
putting parsers together has one equation here (`read_bind`, `read_thenIf`, …), and what its answer
comes of is said once (`read_bind_eq_ok_iff`, `read_bind_eq_error_iff`, …).  The two repetitions have
`readWhile` and `readUntil`, which are `foldWhileFrom` and `foldUntilFrom` without their bounds.  No
later proof opens an `Outcome`.
-/

namespace ScriptFrontend

/-- An answer, and the tokens left. -/
abbrev Reply (α : Type) := Except Expectation α × List Token

namespace Outcome

variable {α β : Type} {m n : Nat}

/-- The outcome without its bound. -/
def reply : Outcome α n → Reply α
  | done value rest _ => (.ok value, rest)
  | failed failure => (.error failure.expected, failure.remaining)

@[simp] theorem reply_done (value : α) (rest : List Token) (fewer : rest.length < n) :
    (done value rest fewer).reply = (.ok value, rest) := rfl

@[simp] theorem reply_failed (failure : Failure) :
    (failed failure : Outcome α n).reply = (.error failure.expected, failure.remaining) := rfl

@[simp] theorem reply_widen (h : m ≤ n) (o : Outcome α m) : (o.widen h).reply = o.reply := by
  cases o <;> rfl

@[simp] theorem reply_map (f : α → β) (o : Outcome α n) :
    (o.map f).reply = (o.reply.1.map f, o.reply.2) := by
  cases o <;> rfl

end Outcome

namespace Parser

variable {α β σ : Type} {p : Parser α} {tokens rest : List Token} {a : α} {e : Expectation}

/-- **What a parser answers, and the tokens it leaves.** -/
def read (p : Parser α) (tokens : List Token) : Reply α := (p.run tokens).reply

theorem run_done (h : p.read tokens = (.ok a, rest)) :
    ∃ fewer, p.run tokens = .done a rest fewer := by
  cases ho : p.run tokens with
  | done value left fewer =>
    rw [read, ho, Outcome.reply_done] at h
    obtain ⟨rfl, rfl⟩ : value = a ∧ left = rest := by simpa using h
    exact ⟨fewer, rfl⟩
  | failed failure => simp [read, ho] at h

/-- Every parser consumes. -/
theorem length_read (h : p.read tokens = (.ok a, rest)) : rest.length < tokens.length :=
  (run_done h).1

/-- A parser answers with a value or with an expectation. -/
theorem read_cases (p : Parser α) (tokens : List Token) :
    (∃ a rest, p.read tokens = (.ok a, rest)) ∨ ∃ e rest, p.read tokens = (.error e, rest) := by
  rcases p.read tokens with ⟨e | a, rest⟩
  · exact .inr ⟨e, rest, rfl⟩
  · exact .inl ⟨a, rest, rfl⟩

/-! ## One parser after the other -/

@[simp] theorem read_fail (e : Expectation) (tokens : List Token) :
    (fail e : Parser α).read tokens = (.error e, tokens) := rfl

@[simp] theorem read_map (f : α → β) (p : Parser α) (tokens : List Token) :
    (p.map f).read tokens = ((p.read tokens).1.map f, (p.read tokens).2) := by
  simp [read, map]

@[simp] theorem read_take_nil (kind : Kind) (e : Expectation) :
    (take kind e).read [] = (.error e, []) := rfl

theorem read_take_cons (kind : Kind) (e : Expectation) (token : Token) (rest : List Token) :
    (take kind e).read (token :: rest) =
      if token.kind = kind then (.ok token, rest) else (.error e, token :: rest) := by
  simp only [read, take]
  split <;> rfl

/-- One parser and then another one. -/
theorem read_bind (p : Parser α) (next : α → Parser β) (tokens : List Token) :
    (p >>= next).read tokens =
      match p.read tokens with
      | (.ok a, rest) => (next a).read rest
      | (.error e, rest) => (.error e, rest) := by
  change (p.bind next).read tokens = _
  simp only [read, bind]
  cases p.run tokens <;> simp

@[simp] theorem read_ifNext_nil (kind : Kind) (yes no : Parser α) :
    (ifNext kind yes no).read [] = no.read [] := rfl

theorem read_ifNext_cons (kind : Kind) (yes no : Parser α) (token : Token) (rest : List Token) :
    (ifNext kind yes no).read (token :: rest) =
      if token.kind = kind then yes.read (token :: rest) else no.read (token :: rest) := by
  simp only [read, ifNext]
  split <;> rfl

/-- A parser, and another one behind a token of a kind. -/
theorem read_thenIf (p : Parser α) (kind : Kind) (q : Parser β) (tokens : List Token) :
    (p.thenIf kind q).read tokens =
      match p.read tokens with
      | (.error e, rest) => (.error e, rest)
      | (.ok a, []) => (.ok (a, none), [])
      | (.ok a, token :: rest) =>
        if token.kind = kind then ((q.read rest).1.map fun b => (a, some b), (q.read rest).2)
        else (.ok (a, none), token :: rest) := by
  simp only [read, thenIf]
  cases p.run tokens with
  | failed failure => rfl
  | done a left fewer =>
    cases left with
    | nil => rfl
    | cons token rest =>
      simp only [Outcome.reply_done]
      split <;> simp

/-! ## Answers taken apart

An answer with a value comes of values of all parts, and an expectation of that of one part, behind
values of the parts in front of it. -/

theorem read_map_eq_ok_iff {f : α → β} {b : β} :
    (p.map f).read tokens = (.ok b, rest) ↔ ∃ a, p.read tokens = (.ok a, rest) ∧ f a = b := by
  rw [read_map]
  constructor
  · intro h
    rcases p.read_cases tokens with ⟨a, left, ha⟩ | ⟨e, left, he⟩
    · obtain ⟨rfl, rfl⟩ : f a = b ∧ left = rest := by simpa [ha, Except.map] using h
      exact ⟨a, ha, rfl⟩
    · simp [he, Except.map] at h
  · rintro ⟨a, ha, rfl⟩
    rw [ha]
    rfl

theorem read_map_eq_error_iff {f : α → β} :
    (p.map f).read tokens = (.error e, rest) ↔ p.read tokens = (.error e, rest) := by
  rw [read_map]
  rcases p.read tokens with ⟨e | a, left⟩ <;> simp [Except.map]

theorem read_take_eq_ok_iff {kind : Kind} {token : Token} :
    (take kind e).read tokens = (.ok token, rest) ↔ tokens = token :: rest ∧ token.kind = kind := by
  constructor
  · intro h
    rcases tokens with _ | ⟨first, behind⟩
    · simp at h
    rw [read_take_cons] at h
    split at h
    next hkind =>
      obtain ⟨rfl, rfl⟩ : first = token ∧ behind = rest := by simpa using h
      exact ⟨rfl, hkind⟩
    next => simp at h
  · rintro ⟨rfl, hkind⟩
    rw [read_take_cons, if_pos hkind]

theorem read_take_eq_error_iff {kind : Kind} {expected : Expectation} :
    (take kind expected).read tokens = (.error e, rest) ↔
      e = expected ∧ rest = tokens ∧ ∀ token ∈ tokens.head?, token.kind ≠ kind := by
  rcases tokens with _ | ⟨first, behind⟩
  · simp [eq_comm]
  rw [read_take_cons]
  split
  next hkind => simp [hkind]
  next hkind => simpa [eq_comm] using fun _ _ h => hkind h.symm

theorem read_bind_eq_ok_iff {next : α → Parser β} {b : β} :
    (p >>= next).read tokens = (.ok b, rest) ↔
      ∃ a mid, p.read tokens = (.ok a, mid) ∧ (next a).read mid = (.ok b, rest) := by
  rw [read_bind]
  constructor
  · intro h
    rcases p.read_cases tokens with ⟨a, mid, ha⟩ | ⟨e, mid, he⟩
    · rw [ha] at h
      exact ⟨a, mid, ha, h⟩
    · simp [he] at h
  · rintro ⟨a, mid, ha, hb⟩
    rw [ha]
    exact hb

theorem read_bind_eq_error_iff {next : α → Parser β} :
    (p >>= next).read tokens = (.error e, rest) ↔
      p.read tokens = (.error e, rest) ∨
        ∃ a mid, p.read tokens = (.ok a, mid) ∧ (next a).read mid = (.error e, rest) := by
  rw [read_bind]
  constructor
  · intro h
    rcases p.read_cases tokens with ⟨a, mid, ha⟩ | ⟨e', mid, he⟩
    · rw [ha] at h
      exact .inr ⟨a, mid, ha, h⟩
    · rw [he] at h ⊢
      exact .inl (by simpa using h)
  · rintro (h | ⟨a, mid, ha, hb⟩)
    · rw [h]
    · rw [ha]
      exact hb

/-- With no token of the kind behind the first part there is no second one. -/
theorem read_thenIf_eq_ok_iff {kind : Kind} {q : Parser β} {x : α × Option β} :
    (p.thenIf kind q).read tokens = (.ok x, rest) ↔
      (∃ a, p.read tokens = (.ok a, rest) ∧ (∀ token ∈ rest.head?, token.kind ≠ kind) ∧
        x = (a, none)) ∨
      ∃ a token mid b, p.read tokens = (.ok a, token :: mid) ∧ token.kind = kind ∧
        q.read mid = (.ok b, rest) ∧ x = (a, some b) := by
  rw [read_thenIf]
  constructor
  · intro h
    rcases p.read_cases tokens with ⟨a, _ | ⟨token, mid⟩, ha⟩ | ⟨e, mid, he⟩
    · obtain ⟨rfl, rfl⟩ : (a, none) = x ∧ [] = rest := by simpa [ha] using h
      exact .inl ⟨a, ha, by simp, rfl⟩
    · rw [ha] at h
      simp only at h
      split at h
      next hkind =>
        rcases q.read_cases mid with ⟨b, left, hb⟩ | ⟨e, left, he⟩
        · obtain ⟨rfl, rfl⟩ : (a, some b) = x ∧ left = rest := by simpa [hb, Except.map] using h
          exact .inr ⟨a, token, mid, b, ha, hkind, hb, rfl⟩
        · simp [he, Except.map] at h
      next hkind =>
        obtain ⟨rfl, rfl⟩ : (a, none) = x ∧ token :: mid = rest := by simpa using h
        exact .inl ⟨a, ha, by simpa using hkind, rfl⟩
    · simp [he] at h
  · rintro (⟨a, ha, hkind, rfl⟩ | ⟨a, token, mid, b, ha, hkind, hb, rfl⟩)
    · rw [ha]
      rcases rest with _ | ⟨token, mid⟩
      · rfl
      · exact if_neg (hkind token rfl)
    · simp [ha, hkind, hb, Except.map]

theorem read_thenIf_eq_error_iff {kind : Kind} {q : Parser β} :
    (p.thenIf kind q).read tokens = (.error e, rest) ↔
      p.read tokens = (.error e, rest) ∨
        ∃ a token mid, p.read tokens = (.ok a, token :: mid) ∧ token.kind = kind ∧
          q.read mid = (.error e, rest) := by
  rw [read_thenIf]
  constructor
  · intro h
    rcases p.read_cases tokens with ⟨a, _ | ⟨token, mid⟩, ha⟩ | ⟨e', mid, he⟩
    · simp [ha] at h
    · rw [ha] at h
      simp only at h
      split at h
      next hkind =>
        rcases q.read_cases mid with ⟨b, left, hb⟩ | ⟨e', left, hb⟩
        · simp [hb, Except.map] at h
        · obtain ⟨rfl, rfl⟩ : e' = e ∧ left = rest := by simpa [hb, Except.map] using h
          exact .inr ⟨a, token, mid, ha, hkind, hb⟩
      next => simp at h
    · rw [he] at h ⊢
      exact .inl (by simpa using h)
  · rintro (h | ⟨a, token, mid, ha, hkind, hb⟩)
    · rw [h]
    · simp [ha, hkind, hb, Except.map]

/-! ## Repetition -/

section While

variable (test : Kind → Bool) (next : Parser β) (combine : α → Token → β → α)

/-- Adds to a value what `next` reads, behind each token that passes a test. -/
def readWhile (value : α) (tokens : List Token) : Reply α :=
  (foldWhileFrom test next combine value tokens (Nat.lt_succ_self _)).reply

/-- The bound does not matter. -/
theorem reply_foldWhileFrom {bound : Nat} (value : α) (tokens : List Token)
    (fewer : tokens.length < bound) :
    (foldWhileFrom test next combine value tokens fewer).reply =
      readWhile test next combine value tokens := by
  suffices h : ∀ k, ∀ tokens : List Token, tokens.length ≤ k → ∀ (value : α) {b c : Nat}
      (hb : tokens.length < b) (hc : tokens.length < c),
      (foldWhileFrom test next combine value tokens hb).reply =
        (foldWhileFrom test next combine value tokens hc).reply from
    h _ _ (Nat.le_refl _) _ _ _
  intro k
  induction k with
  | zero =>
    intro tokens hk value b c hb hc
    obtain rfl : tokens = [] := List.length_eq_zero_iff.1 (Nat.le_zero.1 hk)
    simp [foldWhileFrom]
  | succ k ih =>
    intro tokens hk value b c hb hc
    rcases tokens with _ | ⟨token, rest⟩
    · simp [foldWhileFrom]
    rw [foldWhileFrom, foldWhileFrom]
    split
    · rcases next.run rest with ⟨other, behind, shorter⟩ | failure
      · exact ih behind (by simp only [List.length_cons] at hk; omega) _ _ _
      · rfl
    · rfl

@[simp] theorem readWhile_nil (value : α) :
    readWhile test next combine value [] = (.ok value, []) := by
  simp [readWhile, foldWhileFrom]

theorem readWhile_cons (value : α) (token : Token) (rest : List Token) :
    readWhile test next combine value (token :: rest) =
      if test token.kind then
        match next.read rest with
        | (.ok b, behind) => readWhile test next combine (combine value token b) behind
        | (.error e, behind) => (.error e, behind)
      else (.ok value, token :: rest) := by
  rw [readWhile, foldWhileFrom]
  split
  · simp only [read]
    rcases next.run rest with ⟨other, behind, shorter⟩ | failure
    · exact reply_foldWhileFrom test next combine _ _ _
    · rfl
  · rfl

theorem read_foldWhile (first : Parser α) (tokens : List Token) :
    (foldWhile first test next combine).read tokens =
      match first.read tokens with
      | (.ok a, rest) => readWhile test next combine a rest
      | (.error e, rest) => (.error e, rest) := by
  simp only [read, foldWhile]
  rcases first.run tokens with ⟨a, rest, fewer⟩ | failure
  · exact reply_foldWhileFrom test next combine _ _ _
  · rfl

end While

section Until

variable (close : Kind) (missing : Expectation) (step : σ → Parser σ)

/-- Changes a value by parsers up to and with a token of the closing kind. -/
def readUntil (value : σ) (tokens : List Token) : Reply σ :=
  (foldUntil close missing step value).read tokens

/-- The bound does not matter. -/
theorem reply_foldUntilFrom {bound : Nat} (value : σ) (tokens : List Token)
    (within : tokens.length ≤ bound) :
    (foldUntilFrom close missing step value tokens within).reply =
      readUntil close missing step value tokens := by
  suffices h : ∀ k, ∀ tokens : List Token, tokens.length ≤ k → ∀ (value : σ) {b c : Nat}
      (hb : tokens.length ≤ b) (hc : tokens.length ≤ c),
      (foldUntilFrom close missing step value tokens hb).reply =
        (foldUntilFrom close missing step value tokens hc).reply from
    h _ _ (Nat.le_refl _) _ _ _
  intro k
  induction k with
  | zero =>
    intro tokens hk value b c hb hc
    obtain rfl : tokens = [] := List.length_eq_zero_iff.1 (Nat.le_zero.1 hk)
    simp [foldUntilFrom]
  | succ k ih =>
    intro tokens hk value b c hb hc
    rcases tokens with _ | ⟨token, rest⟩
    · simp [foldUntilFrom]
    rw [foldUntilFrom, foldUntilFrom]
    split
    · rfl
    · rcases (step value).run (token :: rest) with ⟨other, behind, shorter⟩ | failure
      · exact ih behind (by simp only [List.length_cons] at hk shorter; omega) _ _ _
      · rfl

@[simp] theorem readUntil_nil (value : σ) :
    readUntil close missing step value [] = (.error missing, []) := by
  simp [readUntil, read, foldUntil, foldUntilFrom]

theorem readUntil_cons (value : σ) (token : Token) (rest : List Token) :
    readUntil close missing step value (token :: rest) =
      if token.kind = close then (.ok value, rest)
      else
        match (step value).read (token :: rest) with
        | (.ok value, behind) => readUntil close missing step value behind
        | (.error e, behind) => (.error e, behind) := by
  rw [readUntil, read, foldUntil]
  simp only
  rw [foldUntilFrom]
  split
  · rfl
  · simp only [read]
    rcases (step value).run (token :: rest) with ⟨other, behind, shorter⟩ | failure
    · exact reply_foldUntilFrom close missing step _ _ _
    · rfl

end Until

@[simp] theorem read_skipThrough_nil (close : Kind) (missing : Expectation) :
    (skipThrough close missing).read [] = (.error missing, []) := rfl

theorem read_skipThrough_cons (close : Kind) (missing : Expectation) (token : Token)
    (rest : List Token) :
    (skipThrough close missing).read (token :: rest) =
      if token.kind = close then (.ok (), rest) else (skipThrough close missing).read rest := by
  simp only [read, skipThrough]
  rw [skipThrough.go]
  split <;> simp

end Parser

end ScriptFrontend
