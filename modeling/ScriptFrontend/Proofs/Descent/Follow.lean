import ScriptFrontend.Proofs.Descent.Bounded
import ScriptFrontend.Proofs.Descent.Routine
import ScriptFrontend.Proofs.Parse.Congruence
import ScriptFrontend.Proofs.Parse.Program

/-!
# Proofs/Descent/Follow — the parsers of the language follow its routines

With some room, the parsers of expressions, blocks and statements answer as the routines do that
call one another without a bound, up to the first call for which there is no room
(`follows_expression`, `follows_statement`, `bounded_program`).

Expressions are followed by induction on the room, which operators and parentheses use up, and so
are statements, whose blocks use it up.
-/

namespace ScriptFrontend

open Descent Machine

variable {stop : Token} {room : Nat} {α β : Type}

/-- A call of a routine is followed by what follows its text. -/
theorem Parser.follows_call {routine : Routine α} {p : Parser α}
    (h : Follows (descent stop) room routine.text p) :
    Follows (descent stop) room (.invoke 0 routine) p := fun ahead => (h ahead).call

namespace Parser

/-! ## Expressions -/

theorem follows_signText (op : Operator) {inner : Parser Node}
    (h : Follows (descent stop) room (.invoke 1 .unary) inner) :
    Follows (descent stop) room (Routine.signText op)
      (take (.operator op) .expression >>= fun token =>
        inner.map fun operand => .unary token.lexeme operand token.place) :=
  follows_take.bind fun _ => h.map _

theorem follows_primaryText {inner : Parser Node}
    (h : Follows (descent stop) room (.invoke 1 .expression) inner) :
    Follows (descent stop) room Routine.primaryText (primaryWith inner) := by
  rw [primaryWith_eq]
  refine .ifNext (follows_take.map _) (.ifNext (follows_take.map _)
    (.ifNext (follows_take.map _) (.ifNext ?_ follows_fail)))
  exact follows_take.bind fun _ => h.bind fun _ => follows_take.map _

theorem follows_unaryText {inner group : Parser Node}
    (hinner : Follows (descent stop) room (.invoke 1 .unary) inner)
    (hgroup : Follows (descent stop) room (.invoke 1 .expression) group) :
    Follows (descent stop) room Routine.unaryText (unaryWith inner group) := by
  rw [unaryWith_eq]
  exact .ifNext (follows_signText .not hinner) (.ifNext (follows_signText .minus hinner)
    (follows_call (follows_primaryText hgroup)))

theorem follows_chain {level : Level} {operand : Parser Node}
    (h : Follows (descent stop) room (.invoke 0 (Routine.operand level)) operand) :
    Follows (descent stop) room (.invoke 0 (.level level)) (chain level operand) :=
  follows_call (h.foldWhile h fun _ => rfl)

theorem follows_expressionOver {unary : Parser Node}
    (h : Follows (descent stop) room (.invoke 0 .unary) unary) :
    Follows (descent stop) room (.invoke 0 .expression) (expressionOver unary) :=
  follows_call (follows_chain (follows_chain (follows_chain (follows_chain h))))

/-- **Operands**, by induction on the room. -/
theorem follows_unary : ∀ room, Follows (descent stop) room (.invoke 0 .unary) (unary room)
  | 0 => by
    rw [unary_zero]
    exact follows_call (follows_unaryText (fun _ => bounded_enter_zero) fun _ => bounded_enter_zero)
  | room + 1 => by
    rw [unary_succ]
    exact follows_call (follows_unaryText (fun ahead => (follows_unary room ahead).enter)
      fun ahead => (follows_expressionOver (follows_unary room) ahead).enter)

/-- **Expressions.** -/
theorem follows_expression (room : Nat) :
    Follows (descent stop) room (.invoke 0 .expression) (expression room) :=
  follows_expressionOver (follows_unary room)

/-! ## Parts of statements -/

/-- The parsers of what statements contain follow the routines. -/
structure InnerFollows (stop : Token) (room : Nat) (inner : Inner) : Prop where
  expression : Follows (descent stop) room (.invoke 0 .expression) inner.expression
  block : ∀ construct, Follows (descent stop) room (.invoke 0 (.block construct))
    (inner.block construct)

section Production

open Routine

variable {inner : Inner} (h : InnerFollows stop room inner) (head : Token)

include h

theorem follows_initText :
    Follows (descent stop) room (initText head) (initBody inner head) :=
  follows_take.bind fun _ => follows_take.bind fun _ => h.expression.bind fun _ =>
    follows_take.map _

theorem follows_parenthesisedText (opening closing : Expectation) :
    Follows (descent stop) room (parenthesisedText opening closing)
      (parenthesised inner opening closing) :=
  follows_take.bind fun _ => h.expression.bind fun _ => follows_take.map _

theorem follows_optionalText (close : Mark) (missing : Expectation) :
    Follows (descent stop) room (optionalText close missing)
      (optionalUntil inner close missing) :=
  .ifNext (follows_take.map _) (h.expression.bind fun _ => follows_take.map _)

/-- The declaration of a loop header is a statement of its own, told by its first token. -/
theorem follows_loopStartText :
    Follows (descent stop) room loopStartText (forInitializer inner) := fun ahead => by
  refine bounded_ifNext ?_ (follows_take.map _ _)
  rintro token rest rfl hkind
  have htaken : (take (.keyword .init) .forInitializer).read (token :: rest) =
      (.ok token, rest) := by
    rw [read_take_cons, if_pos hkind]
  have hread : ((take (.keyword .init) .forInitializer).bind fun head =>
      (initBody inner head).map some).read (token :: rest) =
        (((initBody inner token).read rest).1.map some, ((initBody inner token).read rest).2) := by
    refine (read_bind _ _ _).trans ?_
    rw [htaken]
    exact read_map _ _ _
  rw [hread]
  exact bounded_map (bounded_advance.bind (follows_initText h token rest)).call some

omit h in
theorem follows_namesText : Follows (descent stop) room namesText parameterNames :=
  (Follows.foldWhile (follows_take.map _) follows_take fun _ => rfl).map _

omit h in
theorem follows_parametersText : Follows (descent stop) room parametersText parametersUntil :=
  .ifNext (follows_take.map _) (follows_namesText.bind fun _ => follows_take.map _)

omit h in
theorem follows_fieldText : Follows (descent stop) room fieldText structField :=
  follows_take.bind fun _ => follows_take.map _

theorem follows_entryText (read : Entries) :
    Follows (descent stop) room (entryText read) (matchEntry inner read) := by
  refine .ifNext ?_ (.ifNext ?_ follows_fail)
  · exact follows_take.bind fun _ => h.expression.bind fun _ => follows_take.bind fun _ =>
      (h.block "case").map _
  · unfold defaultText defaultEntry
    split
    · exact follows_fail
    · exact follows_take.bind fun _ => follows_take.bind fun _ => (h.block "default").map _

theorem follows_entries (read : Entries) :
    Follows (descent stop) room (.invoke 0 (.entries read))
      (foldUntil (.mark .rightBrace) .matchBodyClose (matchEntry inner) read) := fun ahead => by
  have htext : ∀ read : Entries, (descent stop).text (.entries read) =
      .untilClose (.mark .rightBrace) .matchBodyClose (id read) (entryText read) .entries :=
    fun _ => rfl
  have hall := Follows.foldUntil (follows_entryText h) htext read ahead
  rw [read_map, Except.map_id] at hall
  exact hall

omit h in
theorem follows_fields :
    Follows (descent stop) room (.invoke 0 (.fields []))
      (manyUntil (.mark .rightBrace) .structClose structField) :=
  .foldUntil (fun _ => follows_fieldText.map _) (fun _ => rfl) []

omit h in
theorem follows_skipped (missing : Expectation) :
    Follows (descent stop) room (.invoke 0 (.skipped missing))
      (skipThrough (.operator .pipe) missing)
  | [] => .call (.look bounded_fail)
  | token :: rest => by
    rw [read_skipThrough_cons]
    refine .call (.look ?_)
    simp only [List.head?_cons]
    split
    next hkind => exact (bounded_take hkind).bind bounded_pure
    next => exact (bounded_take rfl).bind (follows_skipped missing rest)

theorem follows_blockText (construct : String) (node : List Node → Location → Node) :
    Follows (descent stop) room (blockText construct node head)
      (blockBody inner construct node head) :=
  (h.block construct).map _

theorem follows_valueText (missing : Expectation) (node : Node → Location → Node) :
    Follows (descent stop) room (valueText missing node head) (valueBody inner missing node head) :=
  h.expression.bind fun _ => follows_take.map _

/-- **Every production follows the text of its form.** -/
theorem follows_formText (form : StatementForm) :
    Follows (descent stop) room (formText head form) (production inner head form) := by
  cases form with
  | init => exact follows_initText h head
  | assignment =>
    exact follows_take.bind fun _ => h.expression.bind fun _ => follows_take.map _
  | ifElse =>
    exact (follows_parenthesisedText h _ _).bind fun _ =>
      ((h.block "if").thenIf (h.block "else")).map _
  | forLoop =>
    exact follows_take.bind fun _ => (follows_loopStartText h).bind fun _ =>
      (follows_optionalText h _ _).bind fun _ => (follows_optionalText h _ _).bind fun _ =>
      (h.block "for").map _
  | whileLoop =>
    exact (follows_parenthesisedText h _ _).bind fun _ => (h.block "while").map _
  | tryCatch =>
    exact (h.block "try").bind fun _ => follows_take.bind fun _ => (h.block "catch").map _
  | macroRegion =>
    exact follows_take.bind fun _ => follows_take.bind fun _ => (follows_skipped _).map _
  | function =>
    exact follows_take.bind fun _ => follows_take.bind fun _ =>
      follows_parametersText.bind fun _ => (h.block "function").map _
  | matchWith =>
    exact (follows_parenthesisedText h _ _).bind fun _ => follows_take.bind fun _ =>
      (follows_entries h _).map _
  | structDecl =>
    exact follows_take.bind fun _ => follows_take.bind fun _ => follows_fields.map _
  | classDecl => exact follows_take.bind fun _ => (h.block "class").map _
  | alloc =>
    exact follows_take.bind fun _ => (follows_parenthesisedText h _ _).bind fun _ =>
      follows_take.map _
  | free => exact follows_take.bind fun _ => follows_take.map _
  | start =>
    exact (h.block "Start").bind fun _ => follows_take.bind fun _ => follows_take.map _
  | loop | repeatLoop | async | mutex => exact follows_blockText h head _ _
  | returnStmt | breakStmt | continueStmt => exact follows_take.map _
  | await | throw => exact follows_valueText h head _ _

/-- **Statements**, told by their first token. -/
theorem follows_statementText :
    Follows (descent stop) room (.invoke 0 .statement) (statementWith inner)
  | [] => .call (.look bounded_fail)
  | token :: rest => by
    rw [read_statementWith_cons]
    refine .call (.look ?_)
    rcases hform : StatementForm.ofKind? token.kind with _ | form
    · simp only [List.head?_cons, hform]
      exact bounded_fail
    · simp only [List.head?_cons, hform]
      exact .call (bounded_advance.bind (follows_formText h token form rest))

end Production

/-! ## Statements and programs -/

/-- What a program's routine answers, which leaves nothing unless it fails. -/
def replyOf : Except Failure (List Node) → Reply (List Node)
  | .ok nodes => (.ok nodes, [])
  | .error failure => (.error failure.expected, failure.remaining)

theorem eq_error_of_replyOf {answer : Except Failure (List Node)} {e : Expectation}
    {left : List Token} (h : replyOf answer = (.error e, left)) : answer = .error ⟨e, left⟩ := by
  rcases answer with ⟨e, left⟩ | nodes <;> cases h
  rfl

/-- A block is read by what reads its statements and its brace. -/
theorem follows_blockWith {construct : String} {body : Expectation → Parser (List Node)}
    (h : Follows (descent stop) room (.invoke 1 (.blockRest construct []))
      (body (.blockClose construct))) :
    Follows (descent stop) room (.invoke 0 (.block construct)) (blockWith body construct) :=
  follows_call (follows_take.bind fun _ => h)

/-- The statements of a block have the room behind its brace. -/
theorem follows_blockRest {construct : String} {statement : Parser Node}
    (h : Follows (descent stop) room (.invoke 0 .statement) statement) :
    Follows (descent stop) (room + 1) (.invoke 1 (.blockRest construct []))
      (manyUntil (.mark .rightBrace) (.blockClose construct) statement) := fun ahead =>
  (Follows.foldUntil (fun _ => h.map _) (fun _ => rfl) [] ahead).enter

/-- **Statements**, by induction on the room. -/
theorem follows_statement : ∀ room, Follows (descent stop) room (.invoke 0 .statement) (statement room)
  | 0 => by
    rw [statement_eq]
    exact follows_statementText ⟨follows_expression 0, fun _ =>
      follows_blockWith fun _ => bounded_enter_zero⟩
  | room + 1 => by
    rw [statement_eq]
    exact follows_statementText ⟨follows_expression (room + 1), fun _ =>
      follows_blockWith (follows_blockRest (follows_statement room))⟩

/-- **The statements of a program**, by induction on what is left.  Those that have been read are
given in reverse. -/
theorem bounded_program (room : Nat) : ∀ (ahead : List Token) (read : List Node),
    (descent stop).Bounded room (.invoke 0 (.program read)) ahead
      (replyOf ((statements (statement room) ahead).map (read.reverse ++ ·)))
  | [], read => by
    have hall : (statements (statement room) []).map (read.reverse ++ ·) = .ok read.reverse := by
      simp [Except.map]
    rw [hall]
    exact .call (.look bounded_pure)
  | token :: rest, read => by
    have hfirst : (descent stop).Bounded room (.invoke 0 .statement) (token :: rest)
        ((statement room).read (token :: rest)) := follows_statement room (token :: rest)
    rw [statements_cons]
    refine .call (.look ?_)
    rcases hread : (statement room).read (token :: rest) with ⟨e | node, behind⟩
    · rw [hread] at hfirst
      exact hfirst.failed
    · rw [hread] at hfirst
      have hbehind := bounded_program room behind (node :: read)
      have hall : ((statements (statement room) behind).map (node :: ·)).map (read.reverse ++ ·) =
          (statements (statement room) behind).map ((node :: read).reverse ++ ·) := by
        cases statements (statement room) behind <;> simp [Except.map]
      rw [← hall] at hbehind
      exact hfirst.bind hbehind
termination_by ahead => ahead.length
decreasing_by exact length_read hread

/-- **A whole program.** -/
theorem bounded_statements (room : Nat) (ahead : List Token) :
    (descent stop).Bounded room (.invoke 0 (.program [])) ahead
      (replyOf (statements (statement room) ahead)) := by
  have hall : (descent stop).Bounded room _ ahead _ := bounded_program room ahead []
  have hid : (([] : List Node).reverse ++ ·) = id := rfl
  rwa [hid, Except.map_id] at hall

end Parser

end ScriptFrontend
