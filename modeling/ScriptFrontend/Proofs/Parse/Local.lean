import ScriptFrontend.Proofs.Parse.Read

/-!
# Proofs/Parse/Local — what a parser can see

A parser sees the tokens that it consumes and the one behind them, and no other.  So its answer
stays the same if what is behind that token is replaced (`Local.ahead`): a failure is final once the
offending token is there.  And a parser that has room for some nested constructs runs out of it
only after as many tokens (`Local.deep`).

Each way of putting parsers together keeps both.
-/

namespace ScriptFrontend

/-- What is in front of two lists with the same first token makes them lists with the same one. -/
theorem head?_append_congr (front : List Token) {rest other : List Token}
    (h : other.head? = rest.head?) :
    (front ++ other).head? = (front ++ rest).head? := by
  rw [List.head?_append, List.head?_append, h]

namespace Parser

/-- **A parser looks one token ahead**, and it runs out of room only behind as many tokens as it has
room for. -/
structure Local {α : Type} (p : Parser α) (room : Nat) : Prop where
  ahead : ∀ {tokens answer rest}, p.read tokens = (answer, rest) →
    ∃ front, tokens = front ++ rest ∧
      ∀ other, other.head? = rest.head? → p.read (front ++ other) = (answer, other)
  deep : ∀ {tokens rest}, p.read tokens = (.error .shallower, rest) →
    rest.length + room ≤ tokens.length

variable {α β σ : Type} {p : Parser α} {q : Parser β} {room : Nat}

/-- Less room is run out of as well. -/
theorem Local.mono {less : Nat} (h : Local p room) (hle : less ≤ room) : Local p less where
  ahead := h.ahead
  deep hread := by
    have := h.deep hread
    omega

/-! ## Single parsers -/

theorem local_fail {e : Expectation} (he : e ≠ .shallower ∨ room = 0) :
    Local (fail e : Parser α) room where
  ahead {tokens answer rest} h := by
    obtain ⟨rfl, rfl⟩ : .error e = answer ∧ tokens = rest := by simpa using h
    exact ⟨[], rfl, fun other _ => rfl⟩
  deep {tokens rest} h := by
    obtain ⟨hshallower, rfl⟩ : e = .shallower ∧ tokens = rest := by simpa using h
    rw [he.resolve_left fun hne => hne hshallower]
    exact Nat.le_refl _

theorem local_take (kind : Kind) {e : Expectation} (he : e ≠ .shallower) :
    Local (take kind e) room where
  ahead {tokens answer rest} hread := by
    cases answer with
    | ok token =>
      obtain ⟨rfl, hkind⟩ := read_take_eq_ok_iff.1 hread
      exact ⟨[token], rfl, fun other _ => read_take_eq_ok_iff.2 ⟨rfl, hkind⟩⟩
    | error expected =>
      obtain ⟨rfl, rfl, hkind⟩ := read_take_eq_error_iff.1 hread
      exact ⟨[], rfl, fun other hother => read_take_eq_error_iff.2 ⟨rfl, rfl, hother ▸ hkind⟩⟩
  deep hread := absurd (read_take_eq_error_iff.1 hread).1.symm he

/-! ## One parser after the other -/

theorem Local.map (h : Local p room) (f : α → β) : Local (p.map f) room where
  ahead {tokens answer rest} hread := by
    rw [read_map] at hread
    obtain ⟨front, hsplit, hfront⟩ := h.ahead (Prod.eta (p.read tokens)).symm
    obtain ⟨rfl, rfl⟩ := Prod.mk.inj hread
    exact ⟨front, hsplit, fun other hother => by rw [read_map, hfront other hother]⟩
  deep hread := h.deep (read_map_eq_error_iff.1 hread)

theorem Local.bind {next : α → Parser β} (hp : Local p room)
    (hq : ∀ tokens a rest, p.read tokens = (.ok a, rest) → Local (next a) room) :
    Local (p >>= next) room where
  ahead {tokens answer rest} hread := by
    rw [read_bind] at hread
    rcases p.read_cases tokens with ⟨a, mid, h⟩ | ⟨e, mid, h⟩
    · rw [h] at hread
      obtain ⟨front, rfl, hfront⟩ := hp.ahead h
      obtain ⟨middle, rfl, hmiddle⟩ := (hq _ a _ h).ahead hread
      refine ⟨front ++ middle, (List.append_assoc ..).symm, fun other hother => ?_⟩
      rw [List.append_assoc, read_bind, hfront _ (head?_append_congr _ hother)]
      exact hmiddle other hother
    · rw [h] at hread
      obtain ⟨rfl, rfl⟩ : .error e = answer ∧ mid = rest := by simpa using hread
      obtain ⟨front, rfl, hfront⟩ := hp.ahead h
      exact ⟨front, rfl, fun other hother => by rw [read_bind, hfront other hother]⟩
  deep {tokens rest} hread := by
    rcases read_bind_eq_error_iff.1 hread with ha | ⟨a, mid, ha, hb⟩
    · exact hp.deep ha
    · have hmid := length_read ha
      have hrest := (hq _ a _ ha).deep hb
      omega

/-- A token makes room for one construct more. -/
theorem Local.behind {kind : Kind} {e : Expectation} (he : e ≠ .shallower)
    {next : Token → Parser β} (hq : ∀ t, t.kind = kind → Local (next t) room) :
    Local (take kind e >>= next) (room + 1) where
  ahead := (Local.bind (local_take kind he) fun _ t _ ht => hq t (read_take_eq_ok_iff.1 ht).2).ahead
  deep {tokens rest} hread := by
    rcases read_bind_eq_error_iff.1 hread with ht | ⟨t, mid, ht, hb⟩
    · exact absurd (read_take_eq_error_iff.1 ht).1.symm he
    · obtain ⟨rfl, hkind⟩ := read_take_eq_ok_iff.1 ht
      have hrest := (hq t hkind).deep hb
      rw [List.length_cons]
      omega

/-! ## Choice -/

/-- The first token decides between the two branches. -/
theorem read_ifNext (kind : Kind) (yes no : Parser α) (tokens : List Token) :
    (ifNext kind yes no).read tokens =
      if tokens.head?.any (·.kind == kind) then yes.read tokens else no.read tokens := by
  rcases tokens with _ | ⟨token, rest⟩
  · rfl
  · simp [read_ifNext_cons]

theorem Local.ifNext {yes no : Parser α} (hyes : Local yes room) (hno : Local no room)
    (kind : Kind) : Local (ifNext kind yes no) room where
  ahead {tokens answer rest} hread := by
    rw [read_ifNext] at hread
    split at hread
    next hkind =>
      obtain ⟨front, rfl, hfront⟩ := hyes.ahead hread
      refine ⟨front, rfl, fun other hother => ?_⟩
      rw [read_ifNext, head?_append_congr _ hother, if_pos hkind]
      exact hfront other hother
    next hkind =>
      obtain ⟨front, rfl, hfront⟩ := hno.ahead hread
      refine ⟨front, rfl, fun other hother => ?_⟩
      rw [read_ifNext, head?_append_congr _ hother, if_neg hkind]
      exact hfront other hother
  deep {tokens rest} hread := by
    rw [read_ifNext] at hread
    split at hread
    · exact hyes.deep hread
    · exact hno.deep hread

/-- The first token behind the first part decides whether there is a second one. -/
theorem read_thenIf_ok {tokens rest : List Token} {a : α} (h : p.read tokens = (.ok a, rest))
    (kind : Kind) (q : Parser β) :
    (p.thenIf kind q).read tokens =
      if rest.head?.any (·.kind == kind) then
        ((q.read rest.tail).1.map fun b => (a, some b), (q.read rest.tail).2)
      else (.ok (a, none), rest) := by
  rw [read_thenIf, h]
  rcases rest with _ | ⟨token, behind⟩
  · rfl
  · simp

theorem Local.thenIf (hp : Local p room) (hq : Local q room) (kind : Kind) :
    Local (p.thenIf kind q) room where
  ahead {tokens answer rest} hread := by
    cases answer with
    | ok x =>
      rcases read_thenIf_eq_ok_iff.1 hread with
        ⟨a, ha, hkind, rfl⟩ | ⟨a, t, mid, b, ha, hkind, hb, rfl⟩
      · obtain ⟨front, rfl, hfront⟩ := hp.ahead ha
        exact ⟨front, rfl, fun other hother =>
          read_thenIf_eq_ok_iff.2 (.inl ⟨a, hfront other hother, hother ▸ hkind, rfl⟩)⟩
      · obtain ⟨front, rfl, hfront⟩ := hp.ahead ha
        obtain ⟨middle, rfl, hmiddle⟩ := hq.ahead hb
        refine ⟨front ++ t :: middle, by simp, fun other hother => ?_⟩
        rw [List.append_assoc]
        exact read_thenIf_eq_ok_iff.2
          (.inr ⟨a, t, middle ++ other, b, hfront _ rfl, hkind, hmiddle other hother, rfl⟩)
    | error e =>
      rcases read_thenIf_eq_error_iff.1 hread with ha | ⟨a, t, mid, ha, hkind, hb⟩
      · obtain ⟨front, rfl, hfront⟩ := hp.ahead ha
        exact ⟨front, rfl, fun other hother =>
          read_thenIf_eq_error_iff.2 (.inl (hfront other hother))⟩
      · obtain ⟨front, rfl, hfront⟩ := hp.ahead ha
        obtain ⟨middle, rfl, hmiddle⟩ := hq.ahead hb
        refine ⟨front ++ t :: middle, by simp, fun other hother => ?_⟩
        rw [List.append_assoc]
        exact read_thenIf_eq_error_iff.2
          (.inr ⟨a, t, middle ++ other, hfront _ rfl, hkind, hmiddle other hother⟩)
  deep {tokens rest} hread := by
    rcases read_thenIf_eq_error_iff.1 hread with ha | ⟨a, t, mid, ha, -, hb⟩
    · exact hp.deep ha
    · have hmid := length_read ha
      have hrest := hq.deep hb
      rw [List.length_cons] at hmid
      omega

/-! ## Repetition

What is left gets shorter with every round, so a loop is followed by induction on its length. -/

section While

variable {test : Kind → Bool} {combine : α → Token → β → α}

theorem ahead_readWhile (hq : Local q room) {answer : Except Expectation α} {rest : List Token} :
    ∀ (tokens : List Token) (a : α), readWhile test q combine a tokens = (answer, rest) →
      ∃ front, tokens = front ++ rest ∧ ∀ other, other.head? = rest.head? →
        readWhile test q combine a (front ++ other) = (answer, other)
  | [], a, hread => by
    obtain ⟨rfl, rfl⟩ : .ok a = answer ∧ [] = rest := by simpa using hread
    refine ⟨[], rfl, fun other hother => ?_⟩
    obtain rfl : other = [] := by simpa using hother
    exact readWhile_nil _ _ _ _
  | token :: behind, a, hread => by
    rw [readWhile_cons] at hread
    split at hread
    next htest =>
      rcases h : q.read behind with ⟨e | b, left⟩
      · rw [h] at hread
        obtain ⟨rfl, rfl⟩ : .error e = answer ∧ left = rest := by simpa using hread
        obtain ⟨front, rfl, hfront⟩ := hq.ahead h
        refine ⟨token :: front, rfl, fun other hother => ?_⟩
        rw [List.cons_append, readWhile_cons, if_pos htest, hfront other hother]
      · rw [h] at hread
        obtain ⟨front, hsplit, hfront⟩ := hq.ahead h
        obtain ⟨middle, rfl, hmiddle⟩ := ahead_readWhile hq left _ hread
        refine ⟨token :: (front ++ middle), by simp [hsplit], fun other hother => ?_⟩
        rw [List.cons_append, List.append_assoc, readWhile_cons, if_pos htest,
          hfront _ (head?_append_congr _ hother)]
        exact hmiddle other hother
    next htest =>
      obtain ⟨rfl, rfl⟩ : .ok a = answer ∧ token :: behind = rest := by simpa using hread
      refine ⟨[], rfl, fun other hother => ?_⟩
      obtain ⟨tail, rfl⟩ : ∃ tail, other = token :: tail :=
        List.head?_eq_some_iff.1 hother
      rw [List.nil_append, readWhile_cons, if_neg htest]
termination_by tokens => tokens.length
decreasing_by
  have := length_read h
  simp only [List.length_cons]
  omega

theorem deep_readWhile (hq : Local q room) {rest : List Token} :
    ∀ (tokens : List Token) (a : α),
      readWhile test q combine a tokens = (.error .shallower, rest) →
      rest.length + room ≤ tokens.length
  | [], a, hread => by simp at hread
  | token :: behind, a, hread => by
    rw [readWhile_cons] at hread
    split at hread
    next =>
      rcases h : q.read behind with ⟨e | b, left⟩
      · rw [h] at hread
        obtain ⟨rfl, rfl⟩ : e = .shallower ∧ left = rest := by simpa using hread
        exact Nat.le_succ_of_le (hq.deep h)
      · rw [h] at hread
        have hleft := deep_readWhile hq left _ hread
        have hbehind := length_read h
        simp only [List.length_cons]
        omega
    next => simp at hread
termination_by tokens => tokens.length
decreasing_by
  have := length_read h
  simp only [List.length_cons]
  omega

theorem Local.foldWhile (hp : Local p room) (hq : Local q room) :
    Local (p.foldWhile test q combine) room where
  ahead {tokens answer rest} hread := by
    rw [read_foldWhile] at hread
    rcases p.read_cases tokens with ⟨a, mid, h⟩ | ⟨e, mid, h⟩
    · rw [h] at hread
      obtain ⟨front, rfl, hfront⟩ := hp.ahead h
      obtain ⟨middle, rfl, hmiddle⟩ := ahead_readWhile hq mid a hread
      refine ⟨front ++ middle, (List.append_assoc ..).symm, fun other hother => ?_⟩
      rw [List.append_assoc, read_foldWhile, hfront _ (head?_append_congr _ hother)]
      exact hmiddle other hother
    · rw [h] at hread
      obtain ⟨rfl, rfl⟩ : .error e = answer ∧ mid = rest := by simpa using hread
      obtain ⟨front, rfl, hfront⟩ := hp.ahead h
      exact ⟨front, rfl, fun other hother => by rw [read_foldWhile, hfront other hother]⟩
  deep {tokens rest} hread := by
    rw [read_foldWhile] at hread
    rcases p.read_cases tokens with ⟨a, mid, h⟩ | ⟨e, mid, h⟩
    · rw [h] at hread
      have hrest := deep_readWhile hq mid a hread
      have hmid := length_read h
      omega
    · rw [h] at hread
      obtain ⟨rfl, rfl⟩ : e = .shallower ∧ mid = rest := by simpa using hread
      exact hp.deep h

end While

section Until

variable {close : Kind} {missing : Expectation} {step : σ → Parser σ}

theorem ahead_readUntil (hstep : ∀ s, Local (step s) room) {answer : Except Expectation σ}
    {rest : List Token} :
    ∀ (tokens : List Token) (s : σ), readUntil close missing step s tokens = (answer, rest) →
      ∃ front, tokens = front ++ rest ∧ ∀ other, other.head? = rest.head? →
        readUntil close missing step s (front ++ other) = (answer, other)
  | [], s, hread => by
    obtain ⟨rfl, rfl⟩ : .error missing = answer ∧ [] = rest := by simpa using hread
    refine ⟨[], rfl, fun other hother => ?_⟩
    obtain rfl : other = [] := by simpa using hother
    exact readUntil_nil _ _ _ _
  | token :: behind, s, hread => by
    have first {front other : List Token} (h : (front ++ other).head? = some token) :
        ∃ tail, front ++ other = token :: tail := List.head?_eq_some_iff.1 h
    rw [readUntil_cons] at hread
    split at hread
    next hclose =>
      obtain ⟨rfl, rfl⟩ : .ok s = answer ∧ behind = rest := by simpa using hread
      exact ⟨[token], rfl, fun other _ => by simp [readUntil_cons, hclose]⟩
    next hclose =>
      rcases h : (step s).read (token :: behind) with ⟨e | t, left⟩
      · rw [h] at hread
        obtain ⟨rfl, rfl⟩ : .error e = answer ∧ left = rest := by simpa using hread
        obtain ⟨front, hsplit, hfront⟩ := (hstep s).ahead h
        refine ⟨front, hsplit, fun other hother => ?_⟩
        obtain ⟨tail, htail⟩ := first ((head?_append_congr _ hother).trans (by rw [← hsplit]; rfl))
        rw [htail, readUntil_cons, if_neg hclose, ← htail, hfront other hother]
      · rw [h] at hread
        obtain ⟨front, hsplit, hfront⟩ := (hstep s).ahead h
        obtain ⟨middle, rfl, hmiddle⟩ := ahead_readUntil hstep left t hread
        refine ⟨front ++ middle, by simpa using hsplit, fun other hother => ?_⟩
        have hhead := head?_append_congr middle hother
        obtain ⟨tail, htail⟩ := first ((head?_append_congr _ hhead).trans (by rw [← hsplit]; rfl))
        rw [List.append_assoc, htail, readUntil_cons, if_neg hclose, ← htail, hfront _ hhead]
        exact hmiddle other hother
termination_by tokens => tokens.length
decreasing_by exact length_read h

theorem deep_readUntil (hmissing : missing ≠ .shallower) (hstep : ∀ s, Local (step s) room)
    {rest : List Token} :
    ∀ (tokens : List Token) (s : σ),
      readUntil close missing step s tokens = (.error .shallower, rest) →
      rest.length + room ≤ tokens.length
  | [], s, hread => absurd (by simpa using congrArg Prod.fst hread) hmissing
  | token :: behind, s, hread => by
    rw [readUntil_cons] at hread
    split at hread
    next => simp at hread
    next =>
      rcases h : (step s).read (token :: behind) with ⟨e | t, left⟩
      · rw [h] at hread
        obtain ⟨rfl, rfl⟩ : e = .shallower ∧ left = rest := by simpa using hread
        exact (hstep s).deep h
      · rw [h] at hread
        have hrest := deep_readUntil hmissing hstep left t hread
        have hleft := length_read h
        omega
termination_by tokens => tokens.length
decreasing_by exact length_read h

theorem Local.foldUntil (hmissing : missing ≠ .shallower) (hstep : ∀ s, Local (step s) room)
    (s : σ) : Local (foldUntil close missing step s) room where
  ahead hread := ahead_readUntil hstep _ s hread
  deep hread := deep_readUntil hmissing hstep _ s hread

end Until

theorem local_skipThrough (close : Kind) {missing : Expectation} (hmissing : missing ≠ .shallower) :
    Local (skipThrough close missing) room where
  ahead {tokens answer rest} hread := by
    induction tokens with
    | nil =>
      obtain ⟨rfl, rfl⟩ : .error missing = answer ∧ [] = rest := by simpa using hread
      refine ⟨[], rfl, fun other hother => ?_⟩
      obtain rfl : other = [] := by simpa using hother
      rfl
    | cons token behind ih =>
      rw [read_skipThrough_cons] at hread
      split at hread
      next hkind =>
        obtain ⟨rfl, rfl⟩ : .ok () = answer ∧ behind = rest := by simpa using hread
        exact ⟨[token], rfl, fun other _ => by simp [read_skipThrough_cons, hkind]⟩
      next hkind =>
        obtain ⟨front, rfl, hfront⟩ := ih hread
        refine ⟨token :: front, rfl, fun other hother => ?_⟩
        rw [List.cons_append, read_skipThrough_cons, if_neg hkind]
        exact hfront other hother
  deep {tokens rest} hread := by
    induction tokens with
    | nil => exact absurd (by simpa using congrArg Prod.fst hread) hmissing
    | cons token behind ih =>
      rw [read_skipThrough_cons] at hread
      split at hread
      next => simp at hread
      next => exact Nat.le_succ_of_le (ih hread)

end Parser

end ScriptFrontend
