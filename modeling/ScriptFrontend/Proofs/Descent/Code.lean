import ScriptFrontend.Proofs.Parse.Read

/-!
# Proofs/Descent/Code — routines that call one another in front of tokens

A parser by recursive descent consists of routines.  The text of a routine is a `Code`: it looks at
the next token, takes it, fails, calls routines and goes on with what they answer.  A call tells how
many constructs more are open while it lasts.  A loop is a routine that calls itself for its next
round.

A `Machine` gives each routine its text.  Nothing bounds how deep its calls go, and nothing makes
them end: `Runs` holds of the runs that do come to an end, and of nothing else.  `Makes` are the
calls that a run makes by its own text, and `Reaches` are these and the ones made within them, with
the number of constructs that are open there.
-/

namespace ScriptFrontend.Descent

/-- **The text of a routine**, given the names of routines. -/
inductive Code (R : Type → Type) : Type → Type 1 where
  | pure {α : Type} (a : α) : Code R α
  | fail {α : Type} (expected : Expectation) : Code R α
  /-- Goes on by the next token, if there is one, without taking it. -/
  | look {α : Type} (next : Option Token → Code R α) : Code R α
  | take (kind : Kind) (expected : Expectation) : Code R Token
  /-- Takes the next token of whatever kind, but not the one that ends the text. -/
  | advance : Code R Token
  /-- Calls a routine, with some constructs more open than before. -/
  | invoke {α : Type} (opens : Nat) (routine : R α) : Code R α
  | bind {α β : Type} (code : Code R α) (next : α → Code R β) : Code R β

/-- The texts of routines, and the token that ends the text they read. -/
structure Machine (R : Type → Type) where
  text {α : Type} : R α → Code R α
  stop : Token

/-- A call of a routine in front of the tokens that are left. -/
structure Call (R : Type → Type) where
  {worth : Type}
  routine : R worth
  ahead : List Token

variable {R : Type → Type} {α β σ : Type}

/-! ## Texts -/

namespace Code

instance : Monad (Code R) where
  pure := .pure
  bind := .bind

/-- A text with a function applied to what it answers. -/
def map (f : α → β) (code : Code R α) : Code R β := code.bind fun a => .pure (f a)

/-- Chooses between two texts by whether the next token is of a kind. -/
def ifNext (kind : Kind) (yes no : Code R α) : Code R α :=
  .look fun next => if next.any (·.kind == kind) then yes else no

/-- A text and, if a token of a kind follows, another one behind that token. -/
def thenIf (code : Code R α) (kind : Kind) (other : Code R β) : Code R (α × Option β) :=
  code >>= fun a =>
    ifNext kind (take kind .expression >>= fun _ => other.map fun b => (a, some b))
      (.pure (a, none))

/-- A round of a loop that goes on while a token passes a test: takes the token, reads what is
behind it, and calls the next round. -/
def whileNext (test : Kind → Bool) (value : α) (next : Code R β) (combine : Token → β → α)
    (again : α → R α) : Code R α :=
  .look fun
    | none => .pure value
    | some token =>
      if test token.kind then
        take token.kind .expression >>= fun token =>
        next >>= fun b =>
        invoke 0 (again (combine token b))
      else .pure value

/-- A round of a loop that goes on up to and with a token of the closing kind. -/
def untilClose (close : Kind) (missing : Expectation) (value : β) (round : Code R σ)
    (again : σ → R β) : Code R β :=
  .look fun
    | none => .fail missing
    | some token =>
      if token.kind = close then (take close missing).map fun _ => value
      else round >>= fun s => invoke 0 (again s)

end Code

/-! ## Runs -/

namespace Machine

variable (M : Machine R)

/-- **A run of a text that comes to an end**, with its answer and the tokens it leaves. -/
inductive Runs : {α : Type} → Code R α → List Token → Reply α → Prop where
  | pure {α : Type} {a : α} {ahead : List Token} : Runs (.pure a) ahead (.ok a, ahead)
  | fail {α : Type} {e : Expectation} {ahead : List Token} :
    Runs (.fail e : Code R α) ahead (.error e, ahead)
  | look {α : Type} {next : Option Token → Code R α} {ahead : List Token} {reply : Reply α} :
    Runs (next ahead.head?) ahead reply → Runs (.look next) ahead reply
  | take {kind : Kind} {e : Expectation} {token : Token} {rest : List Token} :
    token.kind = kind → Runs (.take kind e) (token :: rest) (.ok token, rest)
  | refuse {kind : Kind} {e : Expectation} {ahead : List Token} :
    (∀ token ∈ ahead.head?, token.kind ≠ kind) → Runs (.take kind e) ahead (.error e, ahead)
  | advance {token : Token} {rest : List Token} : Runs .advance (token :: rest) (.ok token, rest)
  /-- At the end of the text there is nothing to take. -/
  | stay : Runs .advance [] (.ok M.stop, [])
  | call {α : Type} {opens : Nat} {routine : R α} {ahead : List Token} {reply : Reply α} :
    Runs (M.text routine) ahead reply → Runs (.invoke opens routine) ahead reply
  | bind {α β : Type} {code : Code R α} {next : α → Code R β} {ahead mid : List Token} {a : α}
    {reply : Reply β} :
    Runs code ahead (.ok a, mid) → Runs (next a) mid reply → Runs (.bind code next) ahead reply
  /-- What fails is not gone on with. -/
  | failed {α β : Type} {code : Code R α} {next : α → Code R β} {ahead rest : List Token}
    {e : Expectation} :
    Runs code ahead (.error e, rest) → Runs (.bind code next) ahead (.error e, rest)

/-- **The calls that a run makes by its own text**, with the number of constructs that each of them
opens.  Behind a part that fails, or does not end, none is made. -/
inductive Makes : {α : Type} → Code R α → List Token → Nat → Call R → Prop where
  | look {α : Type} {next : Option Token → Code R α} {ahead : List Token} {n : Nat} {c : Call R} :
    Makes (next ahead.head?) ahead n c → Makes (.look next) ahead n c
  | call {α : Type} {opens : Nat} {routine : R α} {ahead : List Token} :
    Makes (.invoke opens routine) ahead opens ⟨routine, ahead⟩
  | first {α β : Type} {code : Code R α} {next : α → Code R β} {ahead : List Token} {n : Nat}
    {c : Call R} :
    Makes code ahead n c → Makes (.bind code next) ahead n c
  | second {α β : Type} {code : Code R α} {next : α → Code R β} {ahead mid : List Token} {a : α}
    {n : Nat} {c : Call R} :
    M.Runs code ahead (.ok a, mid) → Makes (next a) mid n c → Makes (.bind code next) ahead n c

/-- **The calls that a run comes to**: those it makes, and those that are made within them.  While
such a call lasts the calls on the way to it last too, and the number counts the constructs that
they have opened. -/
inductive Reaches : {α : Type} → Code R α → List Token → Nat → Call R → Prop where
  | made {α : Type} {code : Code R α} {ahead : List Token} {n : Nat} {c : Call R} :
    M.Makes code ahead n c → Reaches code ahead n c
  | within {α : Type} {code : Code R α} {ahead : List Token} {m n : Nat} {c c' : Call R} :
    M.Makes code ahead m c → Reaches (M.text c.routine) c.ahead n c' →
    Reaches code ahead (m + n) c'

variable {M} {ahead : List Token} {n : Nat} {c : Call R}

/-- **A run has one answer.** -/
theorem Runs.unique {code : Code R α} {reply other : Reply α} (h : M.Runs code ahead reply)
    (h' : M.Runs code ahead other) : reply = other := by
  induction h with
  | pure | fail | advance | stay => cases h'; rfl
  | look _ ih => cases h' with | look h' => exact ih h'
  | call _ ih => cases h' with | call h' => exact ih h'
  | take hkind =>
    cases h' with
    | take => rfl
    | refuse hne => exact absurd hkind (hne _ rfl)
  | refuse hne =>
    cases h' with
    | take hkind => exact absurd hkind (hne _ rfl)
    | refuse => rfl
  | bind _ _ ih ih' =>
    cases h' with
    | bind h h' =>
      cases ih h
      exact ih' h'
    | failed h => cases ih h
  | failed _ ih =>
    cases h' with
    | bind h _ => cases ih h
    | failed h =>
      cases ih h
      rfl

/-- What a run leaves is the end of what it was given. -/
theorem Runs.suffix {code : Code R α} {reply : Reply α} (h : M.Runs code ahead reply) :
    reply.2 <:+ ahead := by
  induction h with
  | pure | fail | refuse | stay => exact List.suffix_rfl
  | take | advance => exact List.suffix_cons _ _
  | look _ ih | call _ ih | failed _ ih => exact ih
  | bind _ _ ih ih' => exact ih'.trans ih

/-- A call is made in front of the end of what the run was given. -/
theorem Makes.suffix {code : Code R α} (h : M.Makes code ahead n c) : c.ahead <:+ ahead := by
  induction h with
  | look _ ih | first _ ih => exact ih
  | call => exact List.suffix_rfl
  | second hrun _ ih => exact ih.trans hrun.suffix

theorem Reaches.suffix {code : Code R α} (h : M.Reaches code ahead n c) : c.ahead <:+ ahead := by
  induction h with
  | made h => exact h.suffix
  | within h _ ih => exact ih.trans h.suffix

/-- The calls of a run that comes to an end do so, and the run goes on from where they end. -/
theorem Runs.of_makes {code : Code R α} {reply : Reply α} (h : M.Runs code ahead reply)
    (hmakes : M.Makes code ahead n c) :
    ∃ answer, M.Runs (M.text c.routine) c.ahead answer ∧ reply.2 <:+ answer.2 := by
  induction hmakes with
  | look _ ih => cases h with | look h => exact ih h
  | call => cases h with | call h => exact ⟨reply, h, List.suffix_rfl⟩
  | first _ ih =>
    cases h with
    | bind h h' =>
      obtain ⟨answer, hrun, hsuffix⟩ := ih h
      exact ⟨answer, hrun, h'.suffix.trans hsuffix⟩
    | failed h => exact ih h
  | second hrun _ ih =>
    cases h with
    | bind h h' =>
      cases hrun.unique h
      exact ih h'
    | failed h => cases hrun.unique h

/-- **What a run leaves stands behind every call that it comes to.** -/
theorem Runs.suffix_of_reaches {code : Code R α} {reply : Reply α} (h : M.Runs code ahead reply)
    (hreaches : M.Reaches code ahead n c) : reply.2 <:+ c.ahead := by
  induction hreaches with
  | made hmakes =>
    obtain ⟨answer, hrun, hsuffix⟩ := h.of_makes hmakes
    exact hsuffix.trans hrun.suffix
  | within hmakes _ ih =>
    obtain ⟨answer, hrun, hsuffix⟩ := h.of_makes hmakes
    exact hsuffix.trans (ih hrun)

/-! ## What texts reach, part by part -/

theorem reaches_look {next : Option Token → Code R α} :
    M.Reaches (.look next) ahead n c ↔ M.Reaches (next ahead.head?) ahead n c := by
  constructor
  · rintro (⟨⟨h⟩⟩ | ⟨⟨h⟩, h'⟩)
    · exact .made h
    · exact .within h h'
  · rintro (h | ⟨h, h'⟩)
    · exact .made (.look h)
    · exact .within (.look h) h'

/-- A call reaches itself and what its routine reaches. -/
theorem reaches_call {opens : Nat} {routine : R α} :
    M.Reaches (.invoke opens routine) ahead n c ↔
      n = opens ∧ c = ⟨routine, ahead⟩ ∨
        ∃ k, n = opens + k ∧ M.Reaches (M.text routine) ahead k c := by
  constructor
  · rintro (⟨⟨⟩⟩ | ⟨⟨⟩, h⟩)
    · exact .inl ⟨rfl, rfl⟩
    · exact .inr ⟨_, rfl, h⟩
  · rintro (⟨rfl, rfl⟩ | ⟨k, rfl, h⟩)
    · exact .made .call
    · exact .within .call h

/-- What stands behind another text is reached with nothing of that text open. -/
theorem reaches_bind {code : Code R α} {next : α → Code R β} :
    M.Reaches (code >>= next) ahead n c ↔
      M.Reaches code ahead n c ∨
        ∃ a mid, M.Runs code ahead (.ok a, mid) ∧ M.Reaches (next a) mid n c := by
  constructor
  · rintro (h | ⟨h, h'⟩)
    · cases h with
      | first h => exact .inl (.made h)
      | second hrun h => exact .inr ⟨_, _, hrun, .made h⟩
    · cases h with
      | first h => exact .inl (.within h h')
      | second hrun h => exact .inr ⟨_, _, hrun, .within h h'⟩
  · rintro ((h | ⟨h, h'⟩) | ⟨a, mid, hrun, h | ⟨h, h'⟩⟩)
    · exact .made (.first h)
    · exact .within (.first h) h'
    · exact .made (.second hrun h)
    · exact .within (.second hrun h) h'

theorem Runs.reaches_bind {code : Code R α} {next : α → Code R β} {a : α} {mid : List Token}
    (h : M.Runs code ahead (.ok a, mid)) :
    M.Reaches (code >>= next) ahead n c ↔ M.Reaches code ahead n c ∨ M.Reaches (next a) mid n c := by
  rw [Machine.reaches_bind]
  refine or_congr_right ⟨?_, fun hnext => ⟨a, mid, h, hnext⟩⟩
  rintro ⟨b, left, hother, hnext⟩
  cases h.unique hother
  exact hnext

end Machine

end ScriptFrontend.Descent
