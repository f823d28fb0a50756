import ScriptFrontend.Proofs.Descent.Ends

/-!
# Proofs/Descent/Depth — which calls open a construct

A call opens a construct in three cases only (`Enters`): behind a parenthesis, behind a prefix
operator, and behind the brace of a block.  So the number of constructs open at a call is the number
of openings among the calls that last there (`opens_of_makes`); one statement after the other, one
more operand, name, case or field, and one more token of a macro region add nothing to it.  And
there is a token of its own for each of them (`openers_of_reaches`).
-/

namespace ScriptFrontend

open Descent Machine

namespace Descent

variable {R : Type → Type} {α β σ : Type} {M : Machine R} {ahead : List Token} {n : Nat}
  {c : Call R}

/-! ## Texts whose calls open nothing -/

/-- **No call of a text opens a construct.** -/
def Code.Flat : {α : Type} → Code R α → Prop
  | _, .pure _ => True
  | _, .fail _ => True
  | _, .look next => ∀ token, (next token).Flat
  | _, .take _ _ => True
  | _, .advance => True
  | _, .invoke opens _ => opens = 0
  | _, .bind code next => code.Flat ∧ ∀ a, (next a).Flat

section Flat

variable {kind : Kind} {code : Code R α} {next : α → Code R β} {yes no : Code R α}

@[simp] theorem flat_bind : (code >>= next).Flat ↔ code.Flat ∧ ∀ a, (next a).Flat := Iff.rfl

@[simp] theorem flat_map {f : α → β} : (code.map f).Flat ↔ code.Flat :=
  ⟨And.left, fun h => ⟨h, fun _ => trivial⟩⟩

@[simp] theorem flat_ifNext : (Code.ifNext kind yes no).Flat ↔ yes.Flat ∧ no.Flat := forall_ifNext

theorem flat_whileNext {test : Kind → Bool} {value : α} {operand : Code R β}
    {combine : Token → β → α} {again : α → R α} (h : operand.Flat) :
    (Code.whileNext test value operand combine again).Flat
  | none => trivial
  | some token => by
    simp only
    split
    · exact ⟨trivial, fun _ => ⟨h, fun _ => rfl⟩⟩
    · trivial

theorem flat_untilClose {missing : Expectation} {value : β} {round : Code R σ} {again : σ → R β}
    (h : round.Flat) : (Code.untilClose kind missing value round again).Flat
  | none => trivial
  | some token => by
    simp only
    split
    · exact flat_map.2 trivial
    · exact ⟨h, fun _ => rfl⟩

end Flat

theorem Machine.Makes.of_flat {code : Code R α} (h : M.Makes code ahead n c) (hflat : code.Flat) :
    n = 0 := by
  induction h with
  | look _ ih => exact ih (hflat _)
  | call => exact hflat
  | first _ ih => exact ih hflat.1
  | second _ _ ih => exact ih (hflat.2 _)

/-! ## The calls of a text, part by part -/

namespace Machine

/-- What each call pays for what it opens is paid for all that is open. -/
theorem Reaches.paid (left : List Token → Nat)
    (hcalls : ∀ (c : Call R) n c', M.Makes (M.text c.routine) c.ahead n c' →
      n + left c'.ahead ≤ left c.ahead) {code : Code R α} (h : M.Reaches code ahead n c)
    (hcode : ∀ n c, M.Makes code ahead n c → n + left c.ahead ≤ left ahead) :
    n + left c.ahead ≤ left ahead := by
  induction h with
  | made hmakes => exact hcode _ _ hmakes
  | within hmakes _ ih =>
    have hrest := ih fun n c => hcalls _ n c
    have hfirst := hcode _ _ hmakes
    omega

/-- A choice makes the calls of the branch that is taken. -/
theorem Makes.of_ifNext {kind : Kind} {yes no : Code R α}
    (h : M.Makes (Code.ifNext kind yes no) ahead n c) :
    M.Makes yes ahead n c ∨ M.Makes no ahead n c := by
  cases h with
  | look h =>
    cases hkind : ahead.head?.any (·.kind == kind) with
    | true => exact .inl (by simpa [hkind] using h)
    | false => exact .inr (by simpa [hkind] using h)

/-- Behind a token that has to be taken calls are made if it is there. -/
theorem Makes.of_take {kind : Kind} {e : Expectation} {next : Token → Code R β}
    (h : M.Makes (.take kind e >>= next) ahead n c) :
    ∃ token rest, ahead = token :: rest ∧ token.kind = kind ∧ M.Makes (next token) rest n c := by
  cases h with
  | first h => cases h
  | second hrun h => cases hrun with | take hkind => exact ⟨_, _, rfl, hkind, h⟩

/-- A call, and nothing but tokens behind it. -/
theorem Makes.of_call {opens : Nat} {routine : R α} {next : α → Code R β}
    (hnext : ∀ a mid, ¬ M.Makes (next a) mid n c)
    (h : M.Makes (.invoke opens routine >>= next) ahead n c) : n = opens ∧ c = ⟨routine, ahead⟩ := by
  cases h with
  | first h => cases h; exact ⟨rfl, rfl⟩
  | second _ h => exact absurd h (hnext _ _)

theorem not_makes_pure {a : α} : ¬ M.Makes (pure a) ahead n c := nofun

theorem not_makes_map_take {kind : Kind} {e : Expectation} {f : Token → α} :
    ¬ M.Makes ((Code.take kind e).map f) ahead n c := fun h =>
  let ⟨_, _, _, _, hnext⟩ := h.of_take
  nomatch hnext

end Machine

end Descent

/-! ## Openings -/

/-- **A call that opens a construct**, with the one that makes it. -/
inductive Enters : Descent.Call Routine → Descent.Call Routine → Prop where
  /-- An expression in parentheses. -/
  | group {token : Token} {rest : List Token} : token.kind = .mark .leftParen →
    Enters ⟨.primary, token :: rest⟩ ⟨.expression, rest⟩
  /-- The operand of a prefix operator. -/
  | sign {token : Token} {rest : List Token} : isPrefixOperator token.kind →
    Enters ⟨.unary, token :: rest⟩ ⟨.unary, rest⟩
  /-- The statements of a block. -/
  | braces {construct : String} {token : Token} {rest : List Token} :
    token.kind = .mark .leftBrace →
    Enters ⟨.block construct, token :: rest⟩ ⟨.blockRest construct [], rest⟩

/-- The methods between which constructs are opened. -/
theorem Enters.methods {c c' : Descent.Call Routine} (h : Enters c c') :
    (c.routine.method, c'.routine.method) ∈
      [(.primary, .expression), (.unary, .unary), (.block, .blockRest)] := by
  cases h <;> simp [Routine.method]

namespace Routine

theorem flat_formText (head : Token) (f : StatementForm) : (formText head f).Flat := by
  cases f <;> simp [formText, Code.Flat, initText, parenthesisedText, optionalText, loopStartText,
    namesText, parametersText, valueText, bareText, blockText, Code.thenIf]

theorem flat_programText (read : List Node) : (programText read).Flat
  | none => trivial
  | some _ => ⟨rfl, fun _ => rfl⟩

theorem flat_statementText : statementText.Flat
  | none => trivial
  | some token => by
    simp only
    split
    · rfl
    · trivial

theorem flat_entryText (read : Parser.Entries) : (entryText read).Flat := by
  unfold entryText caseText defaultText
  split <;> simp [Code.Flat]

theorem flat_skippedText (missing : Expectation) : (skippedText missing).Flat
  | none => trivial
  | some token => by
    simp only
    split
    · exact flat_map.2 trivial
    · exact ⟨trivial, fun _ => rfl⟩

/-- **Only operands, primary expressions and blocks open anything.** -/
theorem flat_text {α : Type} (routine : Routine α) (hunary : routine.method ≠ .unary)
    (hprimary : routine.method ≠ .primary) (hblock : routine.method ≠ .block) :
    routine.text.Flat := by
  cases routine with
  | program read => exact flat_programText read
  | statement => exact flat_statementText
  | form f => exact ⟨trivial, fun head => flat_formText head f⟩
  | block => exact absurd rfl hblock
  | blockRest => exact flat_untilClose (flat_map.2 rfl)
  | entries read => exact flat_untilClose (flat_entryText read)
  | names =>
    rw [text]
    exact flat_whileNext trivial
  | fields => exact flat_untilClose (flat_map.2 ⟨trivial, fun _ => flat_map.2 trivial⟩)
  | skipped missing => exact flat_skippedText missing
  | expression => rfl
  | level => exact ⟨rfl, fun _ => rfl⟩
  | joined =>
    rw [text]
    exact flat_whileNext rfl
  | unary => exact absurd rfl hunary
  | primary => exact absurd rfl hprimary

end Routine

variable {stop : Token} {ahead : List Token} {n : Nat} {c c' : Descent.Call Routine}

theorem enters_of_signText {op : Operator} (hop : isPrefixOperator (.operator op))
    (h : (descent stop).Makes (Routine.signText op) ahead n c) :
    n = 1 ∧ Enters ⟨.unary, ahead⟩ c := by
  obtain ⟨token, rest, rfl, hkind, h⟩ := h.of_take
  obtain ⟨rfl, rfl⟩ := h.of_call fun _ _ => not_makes_pure
  exact ⟨rfl, .sign (hkind ▸ hop)⟩

/-- **A call counts as one more open construct if it opens one**, and else it counts nothing. -/
theorem opens_of_makes (h : (descent stop).Makes c.routine.text c.ahead n c') :
    n = 1 ∧ Enters c c' ∨ n = 0 ∧ ¬ Enters c c' := by
  obtain ⟨routine, ahead⟩ := c
  cases routine with
  | unary =>
    rcases h.of_ifNext with h | h
    · exact .inl (enters_of_signText rfl h)
    rcases h.of_ifNext with h | h
    · exact .inl (enters_of_signText rfl h)
    · cases h
      exact .inr ⟨rfl, fun h => by simpa [Routine.method] using h.methods⟩
  | primary =>
    -- numbers, texts and names call nothing
    rcases h.of_ifNext with h | h
    · exact absurd h not_makes_map_take
    rcases h.of_ifNext with h | h
    · exact absurd h not_makes_map_take
    rcases h.of_ifNext with h | h
    · exact absurd h not_makes_map_take
    rcases h.of_ifNext with h | h
    · obtain ⟨token, rest, rfl, hkind, h⟩ := h.of_take
      obtain ⟨rfl, rfl⟩ := h.of_call fun _ _ => not_makes_map_take
      exact .inl ⟨rfl, .group hkind⟩
    · cases h
  | block construct =>
    obtain ⟨token, rest, rfl, hkind, h⟩ := h.of_take
    cases h
    exact .inl ⟨rfl, .braces hkind⟩
  | _ =>
    refine .inr ⟨h.of_flat (Routine.flat_text _ ?_ ?_ ?_), fun h => ?_⟩
    · simp [Routine.method]
    · simp [Routine.method]
    · simp [Routine.method]
    · simpa [Routine.method] using h.methods

/-! ## A token for each -/

/-- Whether a token of a kind can open a construct. -/
def opensConstruct (kind : Kind) : Bool :=
  kind = .mark .leftParen || kind = .mark .leftBrace || isPrefixOperator kind

/-- How many tokens can open a construct. -/
def openers (tokens : List Token) : Nat := tokens.countP fun token => opensConstruct token.kind

theorem Enters.openers_lt (h : Enters c c') : openers c'.ahead < openers c.ahead := by
  cases h <;> simp_all [openers, opensConstruct]

theorem openers_of_makes (h : (descent stop).Makes c.routine.text c.ahead n c') :
    n + openers c'.ahead ≤ openers c.ahead := by
  rcases opens_of_makes h with ⟨rfl, henters⟩ | ⟨rfl, -⟩
  · have := henters.openers_lt
    omega
  · rw [Nat.zero_add]
    exact h.suffix.sublist.countP_le

/-- **What is open at a call has been opened by as many tokens in front of it**, by induction on the
calls on the way to it. -/
theorem openers_of_reaches {α : Type} {routine : Routine α}
    (h : (descent stop).Reaches (.invoke 0 routine) ahead n c) :
    n + openers c.ahead ≤ openers ahead := by
  refine h.paid openers (fun _ _ _ => openers_of_makes) fun n c hmakes => ?_
  cases hmakes
  exact Nat.le_of_eq (Nat.zero_add _)

end ScriptFrontend
