import ScriptFrontend.Proofs.Descent.Code
import ScriptFrontend.Proofs.Parse.Local

/-!
# Proofs/Descent/Bounded — what a run answers where room is limited

With room for a number of open constructs, a run answers as it does without a bound if it comes to
no call with more of them open; and if it comes to one, it stops at the first such call for a lack
of room (`Machine.Bounded`, `Machine.First`).

A parser **follows** a text if it gives these answers (`Follows`), and each way of putting parsers
together follows the same way of putting texts together: a call that opens a construct passes one
unit of room less on, and whatever is behind the call has all of it again (`Bounded.bind`).
-/

namespace ScriptFrontend.Descent

variable {R : Type → Type} {α β σ : Type}

namespace Machine

variable {M : Machine R} {room : Nat} {code : Code R α} {next : α → Code R β}
  {ahead rest mid : List Token} {reply : Reply α} {a : α} {e : Expectation} {c : Call R}

/-- **The first call that opens a construct for which there is no room.**  Nothing in front of it
is open more deeply. -/
structure First (M : Machine R) (room : Nat) (code : Code R α) (ahead : List Token) (c : Call R) :
    Prop where
  reaches : M.Reaches code ahead (room + 1) c
  first : ∀ n c', M.Reaches code ahead n c' → room < n → c'.ahead <:+ c.ahead

/-- **The answer of a run with some room.** -/
inductive Bounded (M : Machine R) (room : Nat) (code : Code R α) (ahead : List Token) :
    Reply α → Prop where
  /-- Nowhere is more open than there is room for. -/
  | within {reply : Reply α} :
    M.Runs code ahead reply → (∀ n c, M.Reaches code ahead n c → n ≤ room) →
    Bounded M room code ahead reply
  /-- Somewhere there is, and the first call of that kind is not made. -/
  | beyond {c : Call R} :
    M.First room code ahead c → Bounded M room code ahead (.error .shallower, c.ahead)

/-- An answer with some room is that of the run, or comes from the first call for which there is no
room. -/
theorem Bounded.split (h : M.Bounded room code ahead reply) :
    (M.Runs code ahead reply ∧ ∀ n c, M.Reaches code ahead n c → n ≤ room) ∨
      ∃ c, M.First room code ahead c ∧ reply = (.error .shallower, c.ahead) := by
  cases h with
  | within hrun hroom => exact .inl ⟨hrun, hroom⟩
  | beyond h => exact .inr ⟨_, h, rfl⟩

/-- What is read is read without a bound. -/
theorem Bounded.ok (h : M.Bounded room code ahead (.ok a, rest)) :
    M.Runs code ahead (.ok a, rest) ∧ ∀ n c, M.Reaches code ahead n c → n ≤ room := by
  cases h with
  | within hrun hroom => exact ⟨hrun, hroom⟩

/-! ## Texts -/

theorem bounded_pure : M.Bounded room (pure a) ahead (.ok a, ahead) :=
  .within .pure fun _ _ h => by rcases h with ⟨⟨⟩⟩ | ⟨⟨⟩, -⟩

theorem bounded_fail : M.Bounded room (.fail e : Code R α) ahead (.error e, ahead) :=
  .within .fail fun _ _ h => by rcases h with ⟨⟨⟩⟩ | ⟨⟨⟩, -⟩

theorem bounded_take {kind : Kind} {token : Token} (h : token.kind = kind) :
    M.Bounded room (.take kind e) (token :: rest) (.ok token, rest) :=
  .within (.take h) fun _ _ h => by rcases h with ⟨⟨⟩⟩ | ⟨⟨⟩, -⟩

theorem bounded_refuse {kind : Kind} (h : ∀ token ∈ ahead.head?, token.kind ≠ kind) :
    M.Bounded room (.take kind e) ahead (.error e, ahead) :=
  .within (.refuse h) fun _ _ h => by rcases h with ⟨⟨⟩⟩ | ⟨⟨⟩, -⟩

theorem bounded_advance {token : Token} :
    M.Bounded room .advance (token :: rest) (.ok token, rest) :=
  .within .advance fun _ _ h => by rcases h with ⟨⟨⟩⟩ | ⟨⟨⟩, -⟩

theorem Bounded.look {next : Option Token → Code R α}
    (h : M.Bounded room (next ahead.head?) ahead reply) :
    M.Bounded room (.look next) ahead reply := by
  cases h with
  | within hrun hroom => exact .within (.look hrun) fun n c h => hroom n c (reaches_look.1 h)
  | beyond h =>
    exact .beyond ⟨reaches_look.2 h.reaches, fun n c' h' => h.first n c' (reaches_look.1 h')⟩

/-- **What follows a text has the same room.** -/
theorem Bounded.bind {answer : Reply β} (h : M.Bounded room code ahead (.ok a, mid))
    (hnext : M.Bounded room (next a) mid answer) : M.Bounded room (code >>= next) ahead answer := by
  obtain ⟨hrun, hroom⟩ := h.ok
  -- what is reached is reached in the text, with little open, or behind it
  have hsplit : ∀ n c, M.Reaches (code >>= next) ahead n c →
      n ≤ room ∨ M.Reaches (next a) mid n c := fun n c hreaches =>
    (hrun.reaches_bind.1 hreaches).imp_left (hroom n c)
  cases hnext with
  | within hrun' hroom' =>
    exact .within (.bind hrun hrun') fun n c h => (hsplit n c h).elim id (hroom' n c)
  | beyond h =>
    refine .beyond ⟨hrun.reaches_bind.2 (.inr h.reaches), fun n c' h' hdeep => ?_⟩
    exact h.first n c' ((hsplit n c' h').resolve_left (Nat.not_le_of_lt hdeep)) hdeep

theorem Bounded.failed (h : M.Bounded room code ahead (.error e, rest)) :
    M.Bounded room (code >>= next) ahead (.error e, rest) := by
  cases h with
  | within hrun hroom =>
    refine .within (.failed hrun) fun n c hreaches => ?_
    rcases reaches_bind.1 hreaches with h | ⟨b, left, hother, -⟩
    · exact hroom n c h
    · cases hrun.unique hother
  | beyond h =>
    refine .beyond ⟨reaches_bind.2 (.inl h.reaches), fun n c' hreaches hdeep => ?_⟩
    rcases reaches_bind.1 hreaches with h' | ⟨b, mid, hrun, h'⟩
    · exact h.first n c' h' hdeep
    · exact h'.suffix.trans (hrun.suffix_of_reaches h.reaches)

/-! ## Calls -/

variable {routine : R α}

/-- **A call that opens nothing has the room that its caller has.** -/
theorem Bounded.call (h : M.Bounded room (M.text routine) ahead reply) :
    M.Bounded room (.invoke 0 routine) ahead reply := by
  have hinner : ∀ n c, M.Reaches (.invoke 0 routine) ahead n c →
      n = 0 ∨ M.Reaches (M.text routine) ahead n c := by
    intro n c hreaches
    rcases reaches_call.1 hreaches with ⟨rfl, -⟩ | ⟨k, rfl, h⟩
    · exact .inl rfl
    · exact .inr (by simpa using h)
  cases h with
  | within hrun hroom =>
    exact .within (.call hrun) fun n c h =>
      (hinner n c h).elim (fun hzero => hzero ▸ Nat.zero_le _) (hroom n c)
  | beyond h =>
    refine .beyond ⟨reaches_call.2 (.inr ⟨room + 1, by simp, h.reaches⟩), fun n c' h' hdeep => ?_⟩
    exact h.first n c' ((hinner n c' h').resolve_left (Nat.ne_zero_of_lt hdeep)) hdeep

/-- **A call that opens a construct has one unit of room less.** -/
theorem Bounded.enter (h : M.Bounded room (.invoke 0 routine) ahead reply) :
    M.Bounded (room + 1) (.invoke 1 routine) ahead reply := by
  have hinner : ∀ n c, M.Reaches (.invoke 1 routine) ahead (n + 1) c →
      M.Reaches (.invoke 0 routine) ahead n c := by
    intro n c hreaches
    rcases reaches_call.1 hreaches with ⟨hone, rfl⟩ | ⟨k, hk, h⟩
    · exact reaches_call.2 (.inl ⟨by omega, rfl⟩)
    · exact reaches_call.2 (.inr ⟨k, by omega, h⟩)
  cases h with
  | within hrun hroom =>
    refine .within (by cases hrun with | call hrun => exact .call hrun) fun n c hreaches => ?_
    rcases n with _ | n
    · exact Nat.zero_le _
    · exact Nat.succ_le_succ (hroom n c (hinner n c hreaches))
  | beyond h =>
    obtain ⟨hzero, -⟩ | ⟨k, hk, hreaches⟩ := reaches_call.1 h.reaches
    · simp at hzero
    refine .beyond ⟨reaches_call.2 (.inr ⟨k, by omega, hreaches⟩), fun n c' h' hdeep => ?_⟩
    obtain ⟨n, rfl⟩ := Nat.exists_eq_succ_of_ne_zero (Nat.ne_zero_of_lt hdeep)
    exact h.first n c' (hinner n c' h') (Nat.lt_of_succ_lt_succ hdeep)

/-- Without room no construct is opened. -/
theorem bounded_enter_zero :
    M.Bounded 0 (.invoke 1 routine) ahead (.error .shallower, ahead) :=
  .beyond (c := ⟨routine, ahead⟩) ⟨reaches_call.2 (.inl ⟨rfl, rfl⟩), fun _ _ h _ => h.suffix⟩

end Machine

/-! ## Parsers that follow texts -/

/-- **A parser follows a text** with some room: it answers what the text's run answers with it. -/
def Follows (M : Machine R) (room : Nat) (code : Code R α) (p : Parser α) : Prop :=
  ∀ ahead, M.Bounded room code ahead (p.read ahead)

section Follows

open Machine ScriptFrontend.Parser

variable {M : Machine R} {room : Nat} {code : Code R α} {p : Parser α} {other : Code R β}
  {q : Parser β} {ahead : List Token} {kind : Kind} {e : Expectation}

theorem follows_fail : Follows M room (.fail e : Code R α) (fail e) := fun _ => bounded_fail

theorem follows_take : Follows M room (.take kind e) (take kind e)
  | [] => bounded_refuse (by simp)
  | token :: rest => by
    rw [read_take_cons]
    split
    next h => exact bounded_take h
    next h => exact bounded_refuse (by simpa using h)

/-- One text and then another one, at the tokens in front of which they are run. -/
theorem bounded_bind {next : α → Code R β} {next' : α → Parser β}
    (h : M.Bounded room code ahead (p.read ahead))
    (hnext : ∀ a mid, p.read ahead = (.ok a, mid) →
      M.Bounded room (next a) mid ((next' a).read mid)) :
    M.Bounded room (code >>= next) ahead ((p >>= next').read ahead) := by
  rw [read_bind]
  rcases hread : p.read ahead with ⟨e | a, mid⟩
  · rw [hread] at h
    exact h.failed
  · rw [hread] at h
    exact h.bind (hnext a mid hread)

theorem Follows.bind {next : α → Code R β} {next' : α → Parser β} (h : Follows M room code p)
    (hnext : ∀ a, Follows M room (next a) (next' a)) :
    Follows M room (code >>= next) (p >>= next') := fun ahead =>
  bounded_bind (h ahead) fun a mid _ => hnext a mid

theorem bounded_map {reply : Reply α} (h : M.Bounded room code ahead reply) (f : α → β) :
    M.Bounded room (code.map f) ahead (reply.1.map f, reply.2) := by
  obtain ⟨e | a, rest⟩ := reply
  · exact h.failed
  · exact h.bind bounded_pure

theorem Follows.map (h : Follows M room code p) (f : α → β) :
    Follows M room (code.map f) (p.map f) := fun ahead => by
  rw [read_map]
  exact bounded_map (h ahead) f

/-- A choice, at the tokens in front of which it is made. -/
theorem bounded_ifNext {yes no : Code R α} {yes' no' : Parser α}
    (hyes : ∀ token rest, ahead = token :: rest → token.kind = kind →
      M.Bounded room yes ahead (yes'.read ahead))
    (hno : M.Bounded room no ahead (no'.read ahead)) :
    M.Bounded room (Code.ifNext kind yes no) ahead ((ifNext kind yes' no').read ahead) := by
  refine .look ?_
  rw [read_ifNext]
  split
  next h =>
    rcases ahead with _ | ⟨token, rest⟩
    · simp at h
    · exact hyes token rest rfl (by simpa using h)
  next => exact hno

theorem Follows.ifNext {yes no : Code R α} {yes' no' : Parser α} (hyes : Follows M room yes yes')
    (hno : Follows M room no no') :
    Follows M room (Code.ifNext kind yes no) (ifNext kind yes' no') := fun ahead =>
  bounded_ifNext (fun _ _ _ _ => hyes ahead) (hno ahead)

theorem Follows.thenIf (h : Follows M room code p) (h' : Follows M room other q) :
    Follows M room (code.thenIf kind other) (p.thenIf kind q) := fun ahead => by
  have hfirst := h ahead
  rcases hread : p.read ahead with ⟨e | a, mid⟩
  · rw [hread] at hfirst
    rw [read_thenIf, hread]
    exact hfirst.failed
  · rw [hread] at hfirst
    rw [read_thenIf_ok hread]
    refine hfirst.bind (.look ?_)
    split
    next hkind =>
      obtain ⟨token, rest, rfl⟩ : ∃ token rest, mid = token :: rest := by
        rcases mid with _ | ⟨token, rest⟩
        · simp at hkind
        · exact ⟨token, rest, rfl⟩
      exact .bind (bounded_take (by simpa using hkind)) (bounded_map (h' rest) _)
    next => exact bounded_pure

/-! ## Loops

What is left gets shorter with every round, so a loop is followed by induction on its length. -/

theorem bounded_readWhile {test : Kind → Bool} {operand : Code R β} {combine : α → Token → β → α}
    {again : α → R α}
    (htext : ∀ a, M.text (again a) = .whileNext test a operand (combine a) again)
    (hq : Follows M room operand q) : ∀ (ahead : List Token) (a : α),
      M.Bounded room (.invoke 0 (again a)) ahead (readWhile test q combine a ahead)
  | [], a => by
    rw [readWhile_nil]
    refine .call ?_
    rw [htext]
    exact .look bounded_pure
  | token :: rest, a => by
    rw [readWhile_cons]
    refine .call ?_
    rw [htext]
    refine .look ?_
    simp only [List.head?_cons]
    split
    · refine .bind (bounded_take rfl) ?_
      have hfirst := hq rest
      rcases hread : q.read rest with ⟨e | b, behind⟩
      · rw [hread] at hfirst
        exact hfirst.failed
      · rw [hread] at hfirst
        exact hfirst.bind (bounded_readWhile htext hq behind _)
    · exact bounded_pure
termination_by ahead => ahead.length
decreasing_by
  have := length_read hread
  simp only [List.length_cons]
  omega

/-- **A loop over what follows tokens of some kinds.** -/
theorem Follows.foldWhile {test : Kind → Bool} {operand : Code R β} {combine : α → Token → β → α}
    {again : α → R α} (hp : Follows M room code p) (hq : Follows M room operand q)
    (htext : ∀ a, M.text (again a) = .whileNext test a operand (combine a) again) :
    Follows M room (code >>= fun a => .invoke 0 (again a)) (p.foldWhile test q combine) :=
  fun ahead => by
    have hfirst := hp ahead
    rw [read_foldWhile]
    rcases hread : p.read ahead with ⟨e | a, mid⟩
    · rw [hread] at hfirst
      exact hfirst.failed
    · rw [hread] at hfirst
      exact hfirst.bind (bounded_readWhile htext hq mid a)

theorem bounded_readUntil {close : Kind} {missing : Expectation} {finish : σ → β}
    {round : σ → Code R σ} {step : σ → Parser σ} {again : σ → R β}
    (htext : ∀ s, M.text (again s) = .untilClose close missing (finish s) (round s) again)
    (hstep : ∀ s, Follows M room (round s) (step s)) : ∀ (ahead : List Token) (s : σ),
      M.Bounded room (.invoke 0 (again s)) ahead
        ((readUntil close missing step s ahead).1.map finish,
          (readUntil close missing step s ahead).2)
  | [], s => by
    rw [readUntil_nil]
    refine .call ?_
    rw [htext]
    exact .look bounded_fail
  | token :: rest, s => by
    rw [readUntil_cons]
    refine .call ?_
    rw [htext]
    refine .look ?_
    simp only [List.head?_cons]
    split
    next hkind => exact (bounded_take hkind).bind bounded_pure
    next =>
      have hfirst := hstep s (token :: rest)
      rcases hread : (step s).read (token :: rest) with ⟨e | t, behind⟩
      · rw [hread] at hfirst
        exact hfirst.failed
      · rw [hread] at hfirst
        exact hfirst.bind (bounded_readUntil htext hstep behind t)
termination_by ahead => ahead.length
decreasing_by exact length_read hread

/-- **A loop up to and with a closing token.** -/
theorem Follows.foldUntil {close : Kind} {missing : Expectation} {finish : σ → β}
    {round : σ → Code R σ} {step : σ → Parser σ} {again : σ → R β}
    (hstep : ∀ s, Follows M room (round s) (step s))
    (htext : ∀ s, M.text (again s) = .untilClose close missing (finish s) (round s) again) (s : σ) :
    Follows M room (.invoke 0 (again s)) ((foldUntil close missing step s).map finish) :=
  fun ahead => by
    rw [read_map]
    exact bounded_readUntil htext hstep ahead s

end Follows

end ScriptFrontend.Descent
