import ScriptFrontend.Proofs.Parse.Congruence

/-!
# Proofs/Parse/Room — more room changes nothing but a lack of it

A parser `p` **restricts** a parser `q` if it answers as `q` does, or runs out of room at a place
that `q` passes where it answers (`Restricts`).  A parser without room restricts all others, and
restricting is kept by every way of putting parsers together; so the statements with some room
restrict those with more of it (`restricts_statement`).
-/

namespace ScriptFrontend

namespace Parser

variable {α β σ : Type} {p p' : Parser α} {q q' : Parser β}

/-- A parser runs out of room in front of some tokens, and an answer with more room is given behind
the first of them. -/
def OutOfRoom (reply full : Reply α) : Prop :=
  ∃ left, reply = (.error .shallower, left) ∧
    ∀ a rest, full = (.ok a, rest) → rest.length < left.length

/-- **A parser with less room than another one** answers as that one does, or runs out of room. -/
structure Restricts (p q : Parser α) : Prop where
  cases : ∀ tokens, p.read tokens = q.read tokens ∨ OutOfRoom (p.read tokens) (q.read tokens)

theorem Restricts.refl (p : Parser α) : Restricts p p := ⟨fun _ => .inl rfl⟩

/-- Without room there is nothing that is read. -/
theorem restricts_shallower (p : Parser α) : Restricts (fail .shallower) p :=
  ⟨fun tokens => .inr ⟨tokens, rfl, fun _ _ h => length_read h⟩⟩

/-! ## One parser after the other -/

theorem Restricts.map (h : Restricts p p') (f : α → β) : Restricts (p.map f) (p'.map f) where
  cases tokens := by
    rw [read_map, read_map]
    rcases h.cases tokens with heq | ⟨left, hleft, hpast⟩
    · exact .inl (by rw [heq])
    · refine .inr ⟨left, by rw [hleft]; rfl, fun b rest hfull => ?_⟩
      rcases p'.read_cases tokens with ⟨a, rest', hread⟩ | ⟨e, rest', hread⟩
      · rw [hread] at hfull
        exact (Prod.mk.inj hfull).2 ▸ hpast a rest' hread
      · simp [hread, Except.map] at hfull

theorem Restricts.bind {next next' : α → Parser β} (hp : Restricts p p')
    (hnext : ∀ a, Restricts (next a) (next' a)) : Restricts (p >>= next) (p' >>= next') where
  cases tokens := by
    rw [read_bind, read_bind]
    rcases hp.cases tokens with heq | ⟨left, hleft, hpast⟩
    · rw [heq]
      rcases p'.read_cases tokens with ⟨a, mid, hread⟩ | ⟨e, mid, hread⟩
      · rw [hread]
        exact (hnext a).cases mid
      · exact .inl (by rw [hread])
    · refine .inr ⟨left, by rw [hleft], fun b rest hfull => ?_⟩
      rcases p'.read_cases tokens with ⟨a, mid, hread⟩ | ⟨e, mid, hread⟩
      · rw [hread] at hfull
        exact Nat.lt_trans (length_read hfull) (hpast a mid hread)
      · simp [hread] at hfull

/-! ## Choice -/

theorem Restricts.ifNext {yes yes' no no' : Parser α} (hyes : Restricts yes yes')
    (hno : Restricts no no') (kind : Kind) :
    Restricts (ifNext kind yes no) (ifNext kind yes' no') where
  cases tokens := by
    rw [read_ifNext, read_ifNext]
    split
    · exact hyes.cases tokens
    · exact hno.cases tokens

theorem Restricts.thenIf (hp : Restricts p p') (hq : Restricts q q') (kind : Kind) :
    Restricts (p.thenIf kind q) (p'.thenIf kind q') where
  cases tokens := by
    rcases p'.read_cases tokens with ⟨a, mid, hread⟩ | ⟨e, mid, hread⟩
    · rcases hp.cases tokens with heq | ⟨left, hleft, hpast⟩
      · rw [read_thenIf_ok hread, read_thenIf_ok (heq.trans hread)]
        split
        · -- the second part decides, and is read behind one token
          rcases hq.cases mid.tail with htail | ⟨left, hleft, hpast⟩
          · exact .inl (by rw [htail])
          · refine .inr ⟨left, by rw [hleft]; rfl, fun b rest hfull => ?_⟩
            rcases q'.read_cases mid.tail with ⟨c, rest', htail⟩ | ⟨e, rest', htail⟩
            · rw [htail] at hfull
              exact (Prod.mk.inj hfull).2 ▸ hpast c rest' htail
            · simp [htail, Except.map] at hfull
        · exact .inl rfl
      · refine .inr ⟨left, by rw [read_thenIf, hleft], fun b rest hfull => ?_⟩
        have hmid := hpast a mid hread
        rw [read_thenIf_ok hread] at hfull
        split at hfull
        · rcases q'.read_cases mid.tail with ⟨c, rest', htail⟩ | ⟨e, rest', htail⟩
          · have hrest := length_read htail
            rw [htail] at hfull
            obtain rfl : rest' = rest := (Prod.mk.inj hfull).2
            rw [List.length_tail] at hrest
            omega
          · simp [htail, Except.map] at hfull
        · exact (Prod.mk.inj hfull).2 ▸ hmid
    · have hfull : (p'.thenIf kind q').read tokens = (.error e, mid) := by
        rw [read_thenIf, hread]
      rw [hfull]
      rcases hp.cases tokens with heq | ⟨left, hleft, -⟩
      · exact .inl (by rw [read_thenIf, heq.trans hread])
      · exact .inr ⟨left, by rw [read_thenIf, hleft], by simp⟩

/-! ## Repetition

Both loops go on from what the parsers of one round leave alike, so they are followed by induction
on what is left. -/

section While

variable {test : Kind → Bool} {combine : α → Token → β → α}

/-- What a loop answers is behind what its operand leaves. -/
theorem length_readWhile_le {a : α} :
    ∀ (tokens : List Token) (value : α) {rest : List Token},
      readWhile test q combine value tokens = (.ok a, rest) → rest.length ≤ tokens.length
  | [], value, rest, h => by
    obtain ⟨-, rfl⟩ : value = a ∧ [] = rest := by simpa using h
    exact Nat.le_refl _
  | token :: behind, value, rest, h => by
    rw [readWhile_cons] at h
    split at h
    next =>
      rcases hread : q.read behind with ⟨e | b, mid⟩
      · simp [hread] at h
      · rw [hread] at h
        have hrest := length_readWhile_le mid _ h
        have hmid := length_read hread
        simp only [List.length_cons]
        omega
    next => exact (Prod.mk.inj h).2 ▸ Nat.le_refl _
termination_by tokens => tokens.length
decreasing_by
  have := length_read hread
  simp only [List.length_cons]
  omega

theorem restricts_readWhile (hq : Restricts q q') :
    ∀ (tokens : List Token) (value : α),
      readWhile test q combine value tokens = readWhile test q' combine value tokens ∨
        OutOfRoom (readWhile test q combine value tokens) (readWhile test q' combine value tokens)
  | [], value => .inl (by simp)
  | token :: behind, value => by
    rw [readWhile_cons, readWhile_cons]
    split
    · rcases hq.cases behind with heq | ⟨left, hleft, hpast⟩
      · rw [heq]
        rcases hread : q'.read behind with ⟨e | b, mid⟩
        · exact .inl rfl
        · exact restricts_readWhile hq mid _
      · refine .inr ⟨left, by rw [hleft], fun a rest hfull => ?_⟩
        rcases hread : q'.read behind with ⟨e | b, mid⟩
        · simp [hread] at hfull
        · rw [hread] at hfull
          exact Nat.lt_of_le_of_lt (length_readWhile_le mid _ hfull) (hpast b mid hread)
    · exact .inl rfl
termination_by tokens => tokens.length
decreasing_by
  have := length_read hread
  simp only [List.length_cons]
  omega

theorem Restricts.foldWhile (hp : Restricts p p') (hq : Restricts q q') :
    Restricts (p.foldWhile test q combine) (p'.foldWhile test q' combine) where
  cases tokens := by
    rw [read_foldWhile, read_foldWhile]
    rcases hp.cases tokens with heq | ⟨left, hleft, hpast⟩
    · rw [heq]
      rcases hread : p'.read tokens with ⟨e | a, mid⟩
      · exact .inl rfl
      · exact restricts_readWhile hq mid a
    · refine .inr ⟨left, by rw [hleft], fun a rest hfull => ?_⟩
      rcases hread : p'.read tokens with ⟨e | value, mid⟩
      · simp [hread] at hfull
      · rw [hread] at hfull
        exact Nat.lt_of_le_of_lt (length_readWhile_le mid _ hfull) (hpast value mid hread)

end While

section Until

variable {close : Kind} {missing : Expectation} {step step' : σ → Parser σ}

theorem restricts_readUntil (hstep : ∀ s, Restricts (step s) (step' s)) :
    ∀ (tokens : List Token) (s : σ),
      readUntil close missing step s tokens = readUntil close missing step' s tokens ∨
        OutOfRoom (readUntil close missing step s tokens) (readUntil close missing step' s tokens)
  | [], s => .inl (by simp)
  | token :: behind, s => by
    rw [readUntil_cons, readUntil_cons]
    split
    · exact .inl rfl
    · rcases (hstep s).cases (token :: behind) with heq | ⟨left, hleft, hpast⟩
      · rw [heq]
        rcases hread : (step' s).read (token :: behind) with ⟨e | t, mid⟩
        · exact .inl rfl
        · exact restricts_readUntil hstep mid t
      · refine .inr ⟨left, by rw [hleft], fun a rest hfull => ?_⟩
        rcases hread : (step' s).read (token :: behind) with ⟨e | t, mid⟩
        · simp [hread] at hfull
        · rw [hread] at hfull
          have hrest : rest.length < mid.length :=
            length_read (p := foldUntil close missing step' t) hfull
          exact Nat.lt_trans hrest (hpast t mid hread)
termination_by tokens => tokens.length
decreasing_by exact length_read hread

theorem Restricts.foldUntil (hstep : ∀ s, Restricts (step s) (step' s)) (s : σ) :
    Restricts (foldUntil close missing step s) (foldUntil close missing step' s) :=
  ⟨fun tokens => restricts_readUntil hstep tokens s⟩

end Until

/-! ## The parsers of the language -/

/-- **Restricting is kept by every way of putting parsers together.** -/
theorem congruence_restricts : Congruence fun _ p q => Restricts p q where
  fail _ := .refl _
  take _ _ := .refl _
  map f h := h.map f
  bind hp hnext := hp.bind hnext
  ifNext hyes hno := hyes.ifNext hno _
  refuseNext hno := (Restricts.refl _).ifNext hno _
  thenIf _ hp hq := hp.thenIf hq _
  foldWhile _ hp hq := hp.foldWhile hq
  foldUntil s _ _ hstep := .foldUntil hstep s

variable {room more : Nat}

/-- Operands with more room, by induction on the room. -/
theorem restricts_unary : ∀ {room more : Nat}, room ≤ more → Restricts (unary room) (unary more)
  | 0, 0, _ => .refl _
  | 0, more + 1, _ => by
    rw [unary_zero, unary_succ]
    exact congruence_restricts.unaryWith (restricts_shallower _) (restricts_shallower _)
  | room + 1, more + 1, h => by
    have hinner := restricts_unary (Nat.le_of_succ_le_succ h)
    rw [unary_succ, unary_succ]
    exact congruence_restricts.unaryWith hinner (congruence_restricts.expressionOver hinner)

theorem restricts_expression (h : room ≤ more) : Restricts (expression room) (expression more) :=
  congruence_restricts.expressionOver (restricts_unary h)

theorem Restricts.statementWith {inner inner' : Inner}
    (h : InnerRelated (fun _ p q => Restricts p q) inner inner') :
    Restricts (statementWith inner) (statementWith inner') where
  cases tokens := by
    rcases tokens with _ | ⟨token, rest⟩
    · exact .inl rfl
    rw [read_statementWith_cons, read_statementWith_cons]
    split
    next form _ =>
      by_cases hform : form = .macroRegion
      · subst hform
        exact .inl rfl
      · exact (congruence_restricts.production h token hform).cases rest
    next => exact .inl rfl

/-- **Statements with more room**, by induction on the room. -/
theorem restricts_statement :
    ∀ {room more : Nat}, room ≤ more → Restricts (statement room) (statement more)
  | 0, 0, _ => .refl _
  | 0, more + 1, h => by
    rw [statement_eq, statement_eq]
    exact .statementWith ⟨restricts_expression h, fun construct =>
      congruence_restricts.blockWith construct (restricts_shallower _)⟩
  | room + 1, more + 1, h => by
    have hstatement := restricts_statement (Nat.le_of_succ_le_succ h)
    rw [statement_eq, statement_eq]
    exact .statementWith ⟨restricts_expression h, fun construct =>
      congruence_restricts.blockWith construct
        (congruence_restricts.manyUntil (by simp) (by simp) hstatement)⟩

end Parser

end ScriptFrontend
