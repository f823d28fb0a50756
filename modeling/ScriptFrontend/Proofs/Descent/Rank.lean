import ScriptFrontend.Proofs.Descent.Code

/-!
# Proofs/Descent/Rank — routines that come to an end

`Ranks` assigns each routine a level, and tells which routines consume a token wherever they answer.
Both are checked on the texts alone (`Ranked`): a routine that is said to consume does so by its
text (`Code.Takes`), and in front of the first token that it consumes a text calls nothing but
routines of lower levels (`Code.Guarded`).

Then every call is **below** the one that makes it: fewer tokens are left, or the same ones and the
level is lower (`Ranked.below_of_makes`).  So no call is made again while it lasts
(`Ranked.below_of_reaches`), there is no endless chain of calls (`Call.wellFounded_below`), and
**every call comes to an end** (`Ranked.ends`).
-/

namespace ScriptFrontend.Descent

/-- The levels of routines, and which of them consume a token wherever they answer. -/
structure Ranks (R : Type → Type) where
  level {α : Type} : R α → Nat
  consumes {α : Type} : R α → Bool

variable {R : Type → Type} {α β σ : Type} {K : Ranks R} {M : Machine R}

/-! ## Checks of a text -/

/-- **A text consumes a token wherever it answers.** -/
def Code.Takes (K : Ranks R) : {α : Type} → Code R α → Prop
  | _, .pure _ => False
  | _, .fail _ => True
  | _, .look next => ∀ token, (next token).Takes K
  | _, .take _ _ => True
  | _, .advance => False
  | _, .invoke _ routine => K.consumes routine
  | _, .bind code next => code.Takes K ∨ ∀ a, (next a).Takes K

/-- **What a text calls in front of the first token it consumes** is below a level. -/
def Code.Guarded (K : Ranks R) (level : Nat) : {α : Type} → Code R α → Prop
  | _, .pure _ => True
  | _, .fail _ => True
  | _, .look next => ∀ token, (next token).Guarded K level
  | _, .take _ _ => True
  | _, .advance => True
  | _, .invoke _ routine => K.level routine < level
  | _, .bind code next => code.Guarded K level ∧ (code.Takes K ∨ ∀ a, (next a).Guarded K level)

/-- **The texts of a machine pass the checks.** -/
structure Ranked (M : Machine R) (K : Ranks R) : Prop where
  takes : ∀ {α : Type} (routine : R α), K.consumes routine → (M.text routine).Takes K
  guarded : ∀ {α : Type} (routine : R α), (M.text routine).Guarded K (K.level routine)

/-! ## The checks, part by part -/

section Parts

variable {kind : Kind} {level : Nat} {code : Code R α} {next : α → Code R β} {yes no : Code R α}

/-- What holds of both branches of a choice holds whatever the next token is. -/
theorem forall_ifNext {P : Code R α → Prop} :
    (∀ next : Option Token, P (if next.any (·.kind == kind) then yes else no)) ↔ P yes ∧ P no := by
  refine ⟨fun h => ⟨by simpa using h (some ⟨kind, "", .start⟩), by simpa using h none⟩, ?_⟩
  rintro ⟨hyes, hno⟩ next
  split
  · exact hyes
  · exact hno

@[simp] theorem takes_bind :
    (code >>= next).Takes K ↔ code.Takes K ∨ ∀ a, (next a).Takes K := Iff.rfl

@[simp] theorem takes_map {f : α → β} :
    (code.map f).Takes K ↔ code.Takes K ∨ (α → False) := Iff.rfl

@[simp] theorem takes_ifNext : (Code.ifNext kind yes no).Takes K ↔ yes.Takes K ∧ no.Takes K :=
  forall_ifNext

theorem takes_untilClose {missing : Expectation} {value : β} {round : Code R σ} {again : σ → R β}
    (h : round.Takes K) : (Code.untilClose kind missing value round again).Takes K
  | none => trivial
  | some token => by
    simp only
    split
    · exact .inl trivial
    · exact .inl h

@[simp] theorem guarded_bind :
    (code >>= next).Guarded K level ↔
      code.Guarded K level ∧ (code.Takes K ∨ ∀ a, (next a).Guarded K level) := Iff.rfl

@[simp] theorem guarded_map {f : α → β} : (code.map f).Guarded K level ↔ code.Guarded K level :=
  ⟨And.left, fun h => ⟨h, .inr fun _ => trivial⟩⟩

@[simp] theorem guarded_ifNext :
    (Code.ifNext kind yes no).Guarded K level ↔ yes.Guarded K level ∧ no.Guarded K level :=
  forall_ifNext

/-- Behind an operator everything may be called. -/
theorem guarded_whileNext {test : Kind → Bool} {value : α} {operand : Code R β}
    {combine : Token → β → α} {again : α → R α} :
    (Code.whileNext test value operand combine again).Guarded K level
  | none => trivial
  | some token => by
    simp only
    split
    · exact ⟨trivial, .inl trivial⟩
    · trivial

theorem guarded_untilClose {missing : Expectation} {value : β} {round : Code R σ} {again : σ → R β}
    (h : round.Guarded K level) (h' : round.Takes K) :
    (Code.untilClose kind missing value round again).Guarded K level
  | none => trivial
  | some token => by
    simp only
    split
    · exact guarded_map.2 trivial
    · exact ⟨h, .inl h'⟩

end Parts

/-! ## What is consumed -/

variable {ahead rest : List Token} {c c' : Call R} {m n level : Nat}

/-- **A text that consumes leaves fewer tokens**, by induction on the run. -/
theorem Ranked.shorter (h : Ranked M K) {code : Code R α} {reply : Reply α}
    (hrun : M.Runs code ahead reply) (htakes : code.Takes K) {a : α} (ha : reply.1 = .ok a) :
    reply.2.length < ahead.length := by
  induction hrun with
  | pure | stay | advance => exact htakes.elim
  | fail | refuse | failed => cases ha
  | take => exact Nat.lt_succ_self _
  | look _ ih => exact ih (htakes _) ha
  | call _ ih => exact ih (h.takes _ htakes) ha
  | bind hfirst hnext ih ih' =>
    rcases htakes with htakes | htakes
    · exact Nat.lt_of_le_of_lt hnext.suffix.length_le (ih htakes rfl)
    · exact Nat.lt_of_lt_of_le (ih' (htakes _) ha) hfirst.suffix.length_le

/-! ## Calls below others -/

/-- A call in front of fewer tokens, or in front of the same ones and below a level. -/
def Call.Under (K : Ranks R) (ahead : List Token) (level : Nat) (c : Call R) : Prop :=
  c.ahead.length < ahead.length ∨ c.ahead = ahead ∧ K.level c.routine < level

/-- **One call is below another**: fewer tokens are left, or the same ones and its level is lower. -/
def Call.Below (K : Ranks R) (c' c : Call R) : Prop := c'.Under K c.ahead (K.level c.routine)

theorem Call.Below.under (h : c'.Below K c) (h' : c.Under K ahead level) :
    c'.Under K ahead level := by
  rcases h with h | ⟨h, hlevel⟩ <;> rcases h' with h' | ⟨h', hlevel'⟩
  · exact .inl (Nat.lt_trans h h')
  · exact .inl (h' ▸ h)
  · exact .inl (h ▸ h')
  · exact .inr ⟨h.trans h', Nat.lt_trans hlevel hlevel'⟩

/-- In front of the end of a list a call is under it as well. -/
theorem Call.Under.of_suffix (h : c.Under K rest level) (hsuffix : rest <:+ ahead) :
    c.Under K ahead level := by
  rcases Nat.lt_or_eq_of_le hsuffix.length_le with hlt | heq
  · refine .inl (Nat.lt_of_le_of_lt ?_ hlt)
    rcases h with h | ⟨h, -⟩
    · exact Nat.le_of_lt h
    · exact Nat.le_of_eq (congrArg List.length h)
  · exact hsuffix.eq_of_length heq ▸ h

/-- **There is no endless chain of calls below one another.** -/
theorem Call.wellFounded_below (K : Ranks R) : WellFounded (Call.Below K) := by
  refine Subrelation.wf ?_ (InvImage.wf (fun c : Call R => (c.ahead.length, K.level c.routine))
    (Prod.lex Nat.lt_wfRel Nat.lt_wfRel).wf)
  rintro c' c (h | ⟨h, hlevel⟩)
  · exact .left _ _ h
  · exact .right' _ (Nat.le_of_eq (congrArg List.length h)) hlevel

/-- What a guarded text calls is behind a token or of a lower level, by induction on the text that
is run up to the call. -/
theorem Ranked.under_of_makes (h : Ranked M K) {code : Code R α} (hmakes : M.Makes code ahead n c)
    (hguarded : code.Guarded K level) : c.Under K ahead level := by
  induction hmakes with
  | look _ ih => exact ih (hguarded _)
  | call => exact .inr ⟨rfl, hguarded⟩
  | first _ ih => exact ih hguarded.1
  | second hrun hmakes ih =>
    rcases hguarded.2 with htakes | hguarded
    · exact .inl (Nat.lt_of_le_of_lt hmakes.suffix.length_le (h.shorter hrun htakes rfl))
    · exact (ih (hguarded _)).of_suffix hrun.suffix

/-- **A call is below the one that makes it.** -/
theorem Ranked.below_of_makes (h : Ranked M K)
    (hmakes : M.Makes (M.text c.routine) c.ahead n c') : c'.Below K c :=
  h.under_of_makes hmakes (h.guarded _)

theorem Ranked.under_of_reaches (h : Ranked M K) {code : Code R α}
    (hreaches : M.Reaches code ahead n c) (hguarded : code.Guarded K level) :
    c.Under K ahead level := by
  induction hreaches generalizing level with
  | made hmakes => exact h.under_of_makes hmakes hguarded
  | within hmakes _ ih =>
    exact Call.Below.under (ih (h.guarded _)) (h.under_of_makes hmakes hguarded)

/-- **What a call reaches is below it**, so no call is made again while it lasts. -/
theorem Ranked.below_of_reaches (h : Ranked M K)
    (hreaches : M.Reaches (M.text c.routine) c.ahead n c') : c'.Below K c :=
  h.under_of_reaches hreaches (h.guarded _)

/-! ## Ends -/

/-- A text comes to an end if the calls that it makes do, by induction on the text. -/
theorem Machine.ends_of_calls (code : Code R α) {ahead : List Token}
    (h : ∀ n c, M.Makes code ahead n c → ∃ reply, M.Runs (M.text c.routine) c.ahead reply) :
    ∃ reply, M.Runs code ahead reply := by
  induction code generalizing ahead with
  | pure => exact ⟨_, .pure⟩
  | fail => exact ⟨_, .fail⟩
  | look next ih =>
    obtain ⟨reply, hrun⟩ := ih _ fun n c hmakes => h n c (.look hmakes)
    exact ⟨reply, .look hrun⟩
  | take kind e =>
    by_cases hkind : ∃ token rest, ahead = token :: rest ∧ token.kind = kind
    · obtain ⟨token, rest, rfl, hkind⟩ := hkind
      exact ⟨_, .take hkind⟩
    · refine ⟨_, .refuse fun token hmem hne => hkind ?_⟩
      obtain ⟨rest, rfl⟩ := List.head?_eq_some_iff.1 hmem
      exact ⟨token, rest, rfl, hne⟩
  | advance =>
    cases ahead with
    | nil => exact ⟨_, .stay⟩
    | cons => exact ⟨_, .advance⟩
  | invoke =>
    obtain ⟨reply, hrun⟩ := h _ _ .call
    exact ⟨reply, .call hrun⟩
  | bind code next ih ih' =>
    obtain ⟨⟨e | a, rest⟩, hrun⟩ := ih fun n c hmakes => h n c (.first hmakes)
    · exact ⟨_, .failed hrun⟩
    · obtain ⟨reply, hnext⟩ := ih' a fun n c hmakes => h n c (.second hrun hmakes)
      exact ⟨reply, .bind hrun hnext⟩

/-- **Every call comes to an end.** -/
theorem Ranked.ends (h : Ranked M K) (routine : R α) (ahead : List Token) :
    ∃ reply, M.Runs (M.text routine) ahead reply := by
  have hall : ∀ c : Call R, ∃ reply, M.Runs (M.text c.routine) c.ahead reply := fun c => by
    induction c using (Call.wellFounded_below K).induction with
    | _ c ih => exact Machine.ends_of_calls _ fun n c' hmakes => ih c' (h.below_of_makes hmakes)
  exact hall ⟨routine, ahead⟩

end ScriptFrontend.Descent
