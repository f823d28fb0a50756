import ScriptFrontend.Proofs.Parse.Reads

/-!
# Proofs/Parse/Expression — the parser of expressions reads the expressions of the grammar

Each rank is tied to its derivations in turn (`Reads.primaryWith`, `Reads.unaryWith`,
`Reads.chain`), and `reads_unary` closes the circle by induction on the room.  An expression goes on
with any binary operator and with nothing else, whatever its rank (`joinsOperands`).
-/

namespace ScriptFrontend

open Grammar

/-- Whether a kind is that of a binary operator. -/
def joinsOperands (kind : Kind) : Prop := ∃ level : Level, level.has kind = true

theorem Level.has_iff {level : Level} {kind : Kind} :
    level.has kind = true ↔ ∃ symbol ∈ level.operators, kind = .operator symbol := by
  cases kind <;> simp [has]

/-- An operator belongs to one level. -/
theorem Level.eq_of_has {level other : Level} {kind : Kind} (h : level.has kind = true)
    (h' : other.has kind = true) : level = other := by
  have apart : ∀ symbol ∈ level.operators, symbol ∈ other.operators → level = other := by
    cases level <;> cases other <;> simp [operators]
  obtain ⟨symbol, hmem, rfl⟩ := has_iff.1 h
  obtain ⟨_, hmem', heq⟩ := has_iff.1 h'
  obtain rfl := Kind.operator.inj heq
  exact apart symbol hmem hmem'

theorem not_joinsOperands_mark (mark : Mark) : ¬ joinsOperands (.mark mark) := by
  rintro ⟨level, h⟩
  simp [Level.has] at h

theorem isPrefixOperator_iff {kind : Kind} :
    isPrefixOperator kind = true ↔ kind = .operator .not ∨ kind = .operator .minus := by
  unfold isPrefixOperator
  split <;> simp_all

/-- A name is a word of every rank. -/
theorem expression_identifier (rank : Rank) :
    Expression rank [⟨.identifier, "", .start⟩] (.identifier "" .start) := by
  have h : Expression .primary [⟨.identifier, "", .start⟩] (.identifier "" .start) :=
    .identifier rfl
  rcases rank with level | _ | _
  · cases level
    · exact .operand (.operand (.operand (.operand (.primary h))))
    · exact .operand (.operand (.operand (.primary h)))
    · exact .operand (.operand (.primary h))
    · exact .operand (.primary h)
  · exact .primary h
  · exact h

theorem viable_expression (rank : Rank) : Language.Viable (Expression rank) [] :=
  ⟨_, _, expression_identifier rank, by simp⟩

/-- An expression and a mark, worth what a function makes of the tree. -/
def Language.closedBy {β : Type} (mark : Mark) (f : Node → β) : Language β := fun word b =>
  ∃ (tokens : List Token) (node : Node) (closing : Token), Expr tokens node ∧
    closing.kind = .mark mark ∧ f node = b ∧ word = tokens ++ [closing]

namespace Parser

variable {A : Kind → Prop} {p inner group : Parser Node} {room : Nat}

/-! ## An expression and the mark behind it -/

/-- A parser that goes on with no mark, and a mark. -/
theorem Reads.closedBy {β : Type} (h : Reads inner room Expr A) {mark : Mark}
    (hA : ¬ A (.mark mark)) (e : Expectation) (f : Node → β) (he : e ≠ .shallower) :
    Reads (inner >>= fun node => (take (.mark mark) e).as (f node)) room (.closedBy mark f)
      nothing := by
  refine (h.bindOpen (fun _ node _ => (reads_take (.mark mark) e ⟨he, by simp⟩).map
    fun _ => f node) ?_).congr fun word b => ⟨?_, ?_⟩
  · rintro _ _ _ ⟨closing, ⟨rfl, hclosing⟩, -⟩ rest
    exact StartsWith.stops ⟨closing, [], rfl, hclosing ▸ hA⟩ rest
  · rintro ⟨tokens, node, _, htokens, ⟨closing, ⟨rfl, hclosing⟩, rfl⟩, rfl⟩
    exact ⟨tokens, node, closing, htokens, hclosing, rfl, rfl⟩
  · rintro ⟨tokens, node, closing, htokens, hclosing, rfl, rfl⟩
    exact ⟨tokens, node, [closing], htokens, ⟨closing, ⟨rfl, hclosing⟩, rfl⟩, rfl⟩

/-! ## Primary expressions -/

@[simp] theorem read_primaryWith_nil (inner : Parser Node) :
    (primaryWith inner).read [] = (.error .expression, []) := rfl

theorem read_primaryWith_cons (inner : Parser Node) (token : Token) (rest : List Token) :
    (primaryWith inner).read (token :: rest) =
      match token.kind with
      | .number => (.ok (.literal token.lexeme "int" token.place), rest)
      | .text => (.ok (.literal (unwrapped token.lexeme) "string" token.place), rest)
      | .identifier => (.ok (.identifier token.lexeme token.place), rest)
      | .mark .leftParen =>
        (inner >>= fun expression => (take (.mark .rightParen) .groupClose).as expression).read rest
      | _ => (.error .expression, token :: rest) := by
  obtain ⟨kind, lexeme, place⟩ := token
  cases kind with
  | mark mark =>
    cases mark with
    | leftParen => exact Outcome.reply_widen (Nat.le_succ _) _
    | _ => rfl
  | _ => rfl

/-- An opening parenthesis makes room for one construct more. -/
theorem Local.primaryWith (h : Local inner room) : Local (primaryWith inner) (room + 1) where
  ahead {tokens answer rest} hread := by
    rcases tokens with _ | ⟨token, behind⟩
    · obtain ⟨rfl, rfl⟩ := Prod.mk.inj hread
      refine ⟨[], rfl, fun other hother => ?_⟩
      obtain rfl : other = [] := by simpa using hother
      rfl
    rw [read_primaryWith_cons] at hread
    have one {node : Node} (hnode : (.ok node, behind) = (answer, rest))
        (htoken : ∀ other, (Parser.primaryWith inner).read (token :: other) = (.ok node, other)) :
        ∃ front, token :: behind = front ++ rest ∧ ∀ other, other.head? = rest.head? →
          (Parser.primaryWith inner).read (front ++ other) = (answer, other) := by
      obtain ⟨rfl, rfl⟩ := Prod.mk.inj hnode
      exact ⟨[token], rfl, fun other _ => htoken other⟩
    split at hread
    next hkind => exact one hread fun other => by rw [read_primaryWith_cons, hkind]
    next hkind => exact one hread fun other => by rw [read_primaryWith_cons, hkind]
    next hkind => exact one hread fun other => by rw [read_primaryWith_cons, hkind]
    next hkind =>
      obtain ⟨front, rfl, hfront⟩ :=
        (h.bind fun _ _ _ _ => (local_take _ (by simp)).map _).ahead hread
      refine ⟨token :: front, rfl, fun other hother => ?_⟩
      rw [List.cons_append, read_primaryWith_cons, hkind]
      exact hfront other hother
    next hnumber htext hname hparen =>
      obtain ⟨rfl, rfl⟩ := Prod.mk.inj hread
      refine ⟨[], rfl, fun other hother => ?_⟩
      obtain ⟨tail, rfl⟩ : ∃ tail, other = token :: tail := List.head?_eq_some_iff.1 hother
      rw [List.nil_append, read_primaryWith_cons]
      split <;> first | contradiction | rfl
  deep {tokens rest} hread := by
    rcases tokens with _ | ⟨token, behind⟩
    · simp at hread
    rw [read_primaryWith_cons] at hread
    split at hread
    next => simp at hread
    next => simp at hread
    next => simp at hread
    next =>
      exact Nat.succ_le_succ ((h.bind fun _ _ _ _ => (local_take _ (by simp)).map _).deep hread)
    next => simp at hread

theorem Reads.primaryWith (h : Reads inner room Expr A) (hA : ¬ A (.mark .rightParen)) :
    Reads (primaryWith inner) (room + 1) (Expression .primary) nothing where
  toLocal := h.toLocal.primaryWith
  word := viable_expression .primary
  sound {tokens node rest} hread := by
    rcases tokens with _ | ⟨token, behind⟩
    · simp at hread
    rw [read_primaryWith_cons] at hread
    split at hread
    next hkind =>
      obtain ⟨rfl, rfl⟩ := by simpa using hread
      exact ⟨[token], .number hkind, rfl⟩
    next hkind =>
      obtain ⟨rfl, rfl⟩ := by simpa using hread
      exact ⟨[token], .text hkind, rfl⟩
    next hkind =>
      obtain ⟨rfl, rfl⟩ := by simpa using hread
      exact ⟨[token], .identifier hkind, rfl⟩
    next hkind =>
      obtain ⟨_, ⟨tokens, _, closing, htokens, hclosing, rfl, rfl⟩, rfl⟩ :=
        (h.closedBy hA _ _ (by simp)).sound hread
      exact ⟨token :: (tokens ++ [closing]), .group hkind htokens hclosing, rfl⟩
    next => simp at hread
  complete {word node rest} hword _ := by
    unfold Gives
    cases hword with
    | number hkind | text hkind | identifier hkind =>
      exact .inl (by rw [List.cons_append, read_primaryWith_cons, hkind]; rfl)
    | @group opening closing tokens _ hkind htokens hclosing =>
      rw [List.cons_append, read_primaryWith_cons, hkind]
      exact (h.closedBy hA _ _ (by simp)).complete ⟨tokens, _, closing, htokens, hclosing, rfl, rfl⟩
        (stops_nothing rest)
  viable {tokens e rest} hread hne := by
    rcases tokens with _ | ⟨token, behind⟩
    · obtain ⟨-, rfl⟩ : Expectation.expression = e ∧ [] = rest := by
        simpa using hread
      exact ⟨[], viable_expression .primary, rfl⟩
    rw [read_primaryWith_cons] at hread
    split at hread
    next => simp at hread
    next => simp at hread
    next => simp at hread
    next hkind =>
      obtain ⟨front, ⟨back, _, ⟨tokens, node, closing, htokens, hclosing, rfl, hsplit⟩, hfree⟩,
        rfl⟩ := (h.closedBy hA _ _ (by simp)).viable hread hne
      refine ⟨token :: front, ⟨back, node, ?_, hfree⟩, rfl⟩
      rw [List.cons_append, hsplit]
      exact .group hkind htokens hclosing
    next =>
      obtain ⟨-, rfl⟩ : Expectation.expression = e ∧ token :: behind = rest := by
        simpa using hread
      exact ⟨[], viable_expression .primary, rfl⟩

/-! ## Operands -/

@[simp] theorem read_unaryWith_nil (inner group : Parser Node) :
    (unaryWith inner group).read [] = (.error .expression, []) := rfl

theorem read_unaryWith_cons (inner group : Parser Node) (token : Token) (rest : List Token) :
    (unaryWith inner group).read (token :: rest) =
      if isPrefixOperator token.kind then
        ((inner.map fun operand => .unary token.lexeme operand token.place).read rest)
      else (Parser.primaryWith group).read (token :: rest) := by
  simp only [read, unaryWith]
  split
  · rw [Outcome.reply_widen]
    rfl
  · rfl

/-- A prefix operator makes room for one construct more. -/
theorem Local.unaryWith (hinner : Local inner room) (hgroup : Local group room) :
    Local (unaryWith inner group) (room + 1) where
  ahead {tokens answer rest} hread := by
    rcases tokens with _ | ⟨token, behind⟩
    · obtain ⟨rfl, rfl⟩ := Prod.mk.inj hread
      refine ⟨[], rfl, fun other hother => ?_⟩
      obtain rfl : other = [] := by simpa using hother
      rfl
    rw [read_unaryWith_cons] at hread
    split at hread
    next hop =>
      obtain ⟨front, rfl, hfront⟩ := (hinner.map _).ahead hread
      refine ⟨token :: front, rfl, fun other hother => ?_⟩
      rw [List.cons_append, read_unaryWith_cons, if_pos hop]
      exact hfront other hother
    next hop =>
      obtain ⟨front, hsplit, hfront⟩ := hgroup.primaryWith.ahead hread
      refine ⟨front, hsplit, fun other hother => ?_⟩
      obtain ⟨tail, htail⟩ : ∃ tail, front ++ other = token :: tail :=
        List.head?_eq_some_iff.1 ((head?_append_congr _ hother).trans (by rw [← hsplit]; rfl))
      rw [htail, read_unaryWith_cons, if_neg hop, ← htail]
      exact hfront other hother
  deep {tokens rest} hread := by
    rcases tokens with _ | ⟨token, behind⟩
    · simp at hread
    rw [read_unaryWith_cons] at hread
    split at hread
    · exact Nat.succ_le_succ ((hinner.map _).deep hread)
    · exact hgroup.primaryWith.deep hread

theorem Reads.unaryWith (hinner : Reads inner room (Expression .unary) nothing)
    (hgroup : Reads group room Expr A) (hA : ¬ A (.mark .rightParen)) :
    Reads (unaryWith inner group) (room + 1) (Expression .unary) nothing where
  toLocal := hinner.toLocal.unaryWith hgroup.toLocal
  word := viable_expression .unary
  sound {tokens node rest} hread := by
    have primary (h : (Parser.primaryWith group).read tokens = (.ok node, rest)) :
        ∃ word, Expression .unary word node ∧ tokens = word ++ rest := by
      obtain ⟨word, hword, hsplit⟩ := (hgroup.primaryWith hA).sound h
      exact ⟨word, .primary hword, hsplit⟩
    rcases tokens with _ | ⟨token, behind⟩
    · exact primary hread
    rw [read_unaryWith_cons] at hread
    split at hread
    next hop =>
      obtain ⟨word, ⟨operand, hword, rfl⟩, rfl⟩ := (hinner.map _).sound hread
      exact ⟨token :: word, .unary (isPrefixOperator_iff.1 hop) hword, rfl⟩
    next => exact primary hread
  complete {word node rest} hword hrest := by
    unfold Gives
    cases hword with
    | primary hword =>
      obtain ⟨head, tail, rfl, -⟩ := hword.startsWith
      have hop : ¬ isPrefixOperator head.kind = true := by
        cases hword <;> simp [*, isPrefixOperator]
      rw [List.cons_append, read_unaryWith_cons, if_neg hop]
      exact (hgroup.primaryWith hA).complete hword hrest
    | unary hop hword =>
      rw [List.cons_append, read_unaryWith_cons, if_pos (isPrefixOperator_iff.2 hop)]
      exact (hinner.map _).complete ⟨_, hword, rfl⟩ hrest
  viable {tokens e rest} hread hne := by
    have primary (h : (Parser.primaryWith group).read tokens = (.error e, rest)) :
        ∃ front, Language.Viable (Expression .unary) front ∧ tokens = front ++ rest := by
      obtain ⟨front, ⟨back, node, hword, hfree⟩, hsplit⟩ := (hgroup.primaryWith hA).viable h hne
      exact ⟨front, ⟨back, node, .primary hword, hfree⟩, hsplit⟩
    rcases tokens with _ | ⟨token, behind⟩
    · exact primary hread
    rw [read_unaryWith_cons] at hread
    split at hread
    next hop =>
      obtain ⟨front, ⟨back, _, ⟨operand, hword, rfl⟩, hfree⟩, rfl⟩ :=
        (hinner.map _).viable hread hne
      exact ⟨token :: front, ⟨back, _, .unary (isPrefixOperator_iff.1 hop) hword, hfree⟩, rfl⟩
    next => exact primary hread

/-! ## Levels -/

/-- Operands joined by the operators of a level are the expressions of the level. -/
theorem joined_iff (level : Level) (word : List Token) (node : Node) :
    Language.Joined (Expression (operandOf level)) level.has (Expression (operandOf level))
      (fun left token right => .binary left token.lexeme right token.place) word node ↔
    Expression (.level level) word node := by
  constructor
  · intro h
    induction h with
    | first h => exact .operand h
    | more _ htest hback ih =>
      obtain ⟨symbol, hmem, hkind⟩ := Level.has_iff.1 htest
      exact .binary ih hkind hmem hback
  · intro h
    generalize hrank : Rank.level level = rank at h
    induction h with
    | operand h =>
      obtain rfl := Rank.level.inj hrank
      exact .first h
    | binary _ hkind hmem hback ih _ =>
      obtain rfl := Rank.level.inj hrank
      exact .more (ih rfl) (Level.has_iff.2 ⟨_, hmem, hkind⟩) hback
    | primary | unary | number | text | identifier | group => cases hrank

theorem Reads.chain {level : Level} (h : Reads p room (Expression (operandOf level)) A)
    (hA : ∀ kind, level.has kind = true → ¬ A kind) :
    Reads (chain level p) room (Expression (.level level))
      (fun kind => level.has kind = true ∨ A kind) :=
  (h.foldWhile h hA).congr (joined_iff level)

/-- Expressions, given their operands. -/
theorem Reads.expressionOver (h : Reads p room (Expression .unary) nothing) :
    Reads (expressionOver p) room Expr joinsOperands := by
  have apart {level : Level} {kind : Kind} (hhas : level.has kind = true) (tighter : Level)
      (hne : level ≠ tighter) : tighter.has kind = false := by
    simpa using fun h => hne (Level.eq_of_has hhas h)
  have factor : Reads (factorOver p) room (Expression (.level .factor)) _ :=
    Reads.chain h fun _ _ => id
  have term : Reads (termOver p) room (Expression (.level .term)) _ :=
    Reads.chain factor fun kind hhas => by
      simp [apart hhas .factor (by decide), nothing]
  have comparison : Reads (comparisonOver p) room (Expression (.level .comparison)) _ :=
    Reads.chain term fun kind hhas => by
      simp [apart hhas .factor (by decide), apart hhas .term (by decide), nothing]
  have equality : Reads (equalityOver p) room Expr _ :=
    Reads.chain comparison fun kind hhas => by
      simp [apart hhas .factor (by decide), apart hhas .term (by decide),
        apart hhas .comparison (by decide), nothing]
  refine equality.mono fun kind hkind => ?_
  rcases hkind with h | h | h | h | h
  · exact ⟨_, h⟩
  · exact ⟨_, h⟩
  · exact ⟨_, h⟩
  · exact ⟨_, h⟩
  · exact h.elim

/-! ## Any room -/

/-- **Operands**, by induction on the room. -/
theorem reads_unary : ∀ room, Reads (unary room) (room + 1) (Expression .unary) nothing
  | 0 => by
    rw [unary_zero]
    exact Reads.unaryWith (A := nothing) (reads_shallower (viable_expression _))
      (reads_shallower (viable_expression _)) id
  | room + 1 => by
    rw [unary_succ]
    exact (reads_unary room).unaryWith (reads_unary room).expressionOver
      (not_joinsOperands_mark _)

/-- **Expressions.** -/
theorem reads_expression (room : Nat) : Reads (expression room) (room + 1) Expr joinsOperands :=
  (reads_unary room).expressionOver

end Parser

end ScriptFrontend
