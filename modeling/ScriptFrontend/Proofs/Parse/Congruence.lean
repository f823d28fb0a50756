import ScriptFrontend.Proofs.Parse.Statement

/-!
# Proofs/Parse/Congruence — what every way of putting parsers together keeps

A relation between parsers is a **congruence** if it is kept by each way of putting parsers
together: `fail`, `take`, `map`, one parser after the other, choice, and the two repetitions.  All
parsers of the language but that of a macro region are made in these ways, so they are related as
soon as the parsers of what they contain are (`Congruence.unaryWith`, `Congruence.production`).

Two restrictions make room for relations that know of bars and of the second default of a match.
Nothing but a macro region takes a bar, and a parser fails with `oneDefault` only where it has seen
a token of its own (`Congruence.refuseNext`).
-/

namespace ScriptFrontend

/-- The bound of an outcome is no part of it. -/
theorem Outcome.eq_of_reply {α : Type} {n : Nat} {o o' : Outcome α n} (h : o.reply = o'.reply) :
    o = o' := by
  cases o with
  | done value rest fewer =>
    cases o' with
    | done value' rest' fewer' =>
      obtain ⟨rfl, rfl⟩ : value = value' ∧ rest = rest' := by simpa using h
      rfl
    | failed failure => simp at h
  | failed failure =>
    cases o' with
    | done value rest fewer => simp at h
    | failed failure' =>
      obtain ⟨hexpected, hremaining⟩ :
          failure.expected = failure'.expected ∧ failure.remaining = failure'.remaining := by
        simpa using h
      obtain rfl : failure = failure' := by
        cases failure
        cases failure'
        simp_all
      rfl

namespace Parser

variable {α β σ : Type}

/-- A parser is what it reads. -/
theorem ext_read {p q : Parser α} (h : ∀ tokens, p.read tokens = q.read tokens) : p = q := by
  cases p
  cases q
  congr 1
  exact funext fun tokens => Outcome.eq_of_reply (h tokens)

/-! ## Operands as choices -/

/-- A primary expression is a choice by its first token. -/
theorem primaryWith_eq (inner : Parser Node) :
    primaryWith inner =
      ifNext .number
        ((take .number .expression).map fun token => .literal token.lexeme "int" token.place) (
      ifNext .text
        ((take .text .expression).map fun token =>
          .literal (unwrapped token.lexeme) "string" token.place) (
      ifNext .identifier
        ((take .identifier .expression).map fun token => .identifier token.lexeme token.place) (
      ifNext (.mark .leftParen)
        (take (.mark .leftParen) .expression >>= fun _ => inner >>= fun expression =>
          (take (.mark .rightParen) .groupClose).as expression)
        (fail .expression)))) := by
  refine ext_read fun tokens => ?_
  rcases tokens with _ | ⟨⟨kind, lexeme, place⟩, rest⟩
  · rfl
  rw [read_primaryWith_cons]
  simp only [read_ifNext_cons, read_map, read_take_cons, read_bind (take _ _), read_fail]
  cases kind with
  | mark mark => cases mark <;> rfl
  | _ => rfl

/-- An operand is a choice by its first token. -/
theorem unaryWith_eq (inner group : Parser Node) :
    unaryWith inner group =
      ifNext (.operator .not)
        (take (.operator .not) .expression >>= fun token =>
          inner.map fun operand => .unary token.lexeme operand token.place) (
      ifNext (.operator .minus)
        (take (.operator .minus) .expression >>= fun token =>
          inner.map fun operand => .unary token.lexeme operand token.place)
        (primaryWith group)) := by
  refine ext_read fun tokens => ?_
  rcases tokens with _ | ⟨⟨kind, lexeme, place⟩, rest⟩
  · rfl
  rw [read_unaryWith_cons]
  simp only [read_ifNext_cons, read_map, read_take_cons, read_bind (take _ _)]
  cases kind with
  | operator op => cases op <;> rfl
  | _ => rfl

/-! ## Congruences -/

/-- **A relation that every way of putting parsers together keeps.** -/
structure Congruence (R : (α : Type) → Parser α → Parser α → Prop) : Prop where
  fail : ∀ {α : Type} {e : Expectation}, e ≠ .oneDefault → R α (fail e) (fail e)
  take : ∀ {kind : Kind} {e : Expectation}, kind ≠ .operator .pipe → e ≠ .oneDefault →
    R Token (take kind e) (take kind e)
  map : ∀ {α β : Type} {p q : Parser α} (f : α → β), R α p q → R β (p.map f) (q.map f)
  bind : ∀ {α β : Type} {p q : Parser α} {next next' : α → Parser β}, R α p q →
    (∀ a, R β (next a) (next' a)) → R β (p >>= next) (q >>= next')
  ifNext : ∀ {α : Type} {kind : Kind} {yes yes' no no' : Parser α}, R α yes yes' → R α no no' →
    R α (ifNext kind yes no) (ifNext kind yes' no')
  /-- A parser that fails where it has seen a token. -/
  refuseNext : ∀ {α : Type} {kind : Kind} {e : Expectation} {no no' : Parser α}, R α no no' →
    R α (Parser.ifNext kind (Parser.fail e) no) (Parser.ifNext kind (Parser.fail e) no')
  thenIf : ∀ {α β : Type} {kind : Kind} {p p' : Parser α} {q q' : Parser β},
    kind ≠ .operator .pipe → R α p p' → R β q q' →
    R (α × Option β) (p.thenIf kind q) (p'.thenIf kind q')
  foldWhile : ∀ {α β : Type} {test : Kind → Bool} {combine : α → Token → β → α}
    {p p' : Parser α} {q q' : Parser β}, test (.operator .pipe) = false → R α p p' → R β q q' →
    R α (p.foldWhile test q combine) (p'.foldWhile test q' combine)
  foldUntil : ∀ {σ : Type} {close : Kind} {missing : Expectation} {step step' : σ → Parser σ}
    (s : σ), close ≠ .operator .pipe → missing ≠ .oneDefault → (∀ s, R σ (step s) (step' s)) →
    R σ (foldUntil close missing step s) (foldUntil close missing step' s)

/-- Parsers of what statements contain that are related. -/
structure InnerRelated (R : (α : Type) → Parser α → Parser α → Prop) (inner inner' : Inner) :
    Prop where
  expression : R Node inner.expression inner'.expression
  block : ∀ construct, R (List Node) (inner.block construct) (inner'.block construct)

namespace Congruence

variable {R : (α : Type) → Parser α → Parser α → Prop}

theorem as {p q : Parser α} (h : Congruence R) (hp : R α p q) (b : β) : R β (p.as b) (q.as b) :=
  h.map _ hp

/-- What a mark or a word closes. -/
theorem closing (h : Congruence R) {kind : Kind} {e : Expectation} (b : β)
    (hkind : kind ≠ .operator .pipe := by simp) (he : e ≠ .oneDefault := by simp) :
    R β ((Parser.take kind e).as b) ((Parser.take kind e).as b) :=
  h.as (h.take hkind he) b

theorem manyUntil (h : Congruence R) {close : Kind} {missing : Expectation} {p q : Parser α}
    (hclose : close ≠ .operator .pipe) (hmissing : missing ≠ .oneDefault) (hp : R α p q) :
    R (List α) (manyUntil close missing p) (manyUntil close missing q) :=
  h.map _ (h.foldUntil [] hclose hmissing fun _ => h.map _ hp)

/-! ## Expressions -/

section Expression

variable {p q inner inner' group group' : Parser Node}

theorem chain (h : Congruence R) (level : Level) (hp : R Node p q) :
    R Node (chain level p) (chain level q) :=
  h.foldWhile (by cases level <;> rfl) hp hp

theorem expressionOver (h : Congruence R) (hp : R Node p q) :
    R Node (expressionOver p) (expressionOver q) :=
  h.chain .equality (h.chain .comparison (h.chain .term (h.chain .factor hp)))

theorem primaryWith (h : Congruence R) (hinner : R Node inner inner') :
    R Node (primaryWith inner) (primaryWith inner') := by
  have hgroup : R Node
      (Parser.take (.mark .leftParen) .expression >>= fun _ => inner >>= fun expression =>
        (Parser.take (.mark .rightParen) .groupClose).as expression)
      (Parser.take (.mark .leftParen) .expression >>= fun _ => inner' >>= fun expression =>
        (Parser.take (.mark .rightParen) .groupClose).as expression) :=
    h.bind (h.take (by simp) (by simp)) fun _ => h.bind hinner fun value => h.closing value
  have hone (kind : Kind) (hkind : kind ≠ .operator .pipe) (f : Token → Node) :
      R Node ((Parser.take kind .expression).map f) ((Parser.take kind .expression).map f) :=
    h.map f (h.take hkind (by simp))
  rw [primaryWith_eq, primaryWith_eq]
  exact h.ifNext (hone _ (by simp) _) (h.ifNext (hone _ (by simp) _)
    (h.ifNext (hone _ (by simp) _) (h.ifNext hgroup (h.fail (by simp)))))

theorem unaryWith (h : Congruence R) (hinner : R Node inner inner')
    (hgroup : R Node group group') :
    R Node (unaryWith inner group) (unaryWith inner' group') := by
  have hsign (op : Operator) (hop : op ≠ .pipe) : R Node
      (Parser.take (.operator op) .expression >>= fun token =>
        inner.map fun operand => .unary token.lexeme operand token.place)
      (Parser.take (.operator op) .expression >>= fun token =>
        inner'.map fun operand => .unary token.lexeme operand token.place) :=
    h.bind (h.take (by simpa using hop) (by simp)) fun token => h.map _ hinner
  rw [unaryWith_eq, unaryWith_eq]
  exact h.ifNext (hsign .not (by simp)) (h.ifNext (hsign .minus (by simp)) (h.primaryWith hgroup))

end Expression

/-! ## Parts of statements -/

section Production

variable {inner inner' : Inner}

theorem initBody (h : Congruence R) (hi : InnerRelated R inner inner') (head : Token) :
    R Node (initBody inner head) (initBody inner' head) :=
  h.bind (h.take (by simp) (by simp)) fun _ => h.bind (h.take (by simp) (by simp)) fun _ =>
    h.bind hi.expression fun _ => h.closing _

theorem parenthesised (h : Congruence R) (hi : InnerRelated R inner inner')
    {opening closing : Expectation} (hopening : opening ≠ .oneDefault)
    (hclosing : closing ≠ .oneDefault) :
    R Node (parenthesised inner opening closing) (parenthesised inner' opening closing) :=
  h.bind (h.take (by simp) hopening) fun _ => h.bind hi.expression fun _ =>
    h.closing _ (by simp) hclosing

theorem optionalUntil (h : Congruence R) (hi : InnerRelated R inner inner') (close : Mark)
    {missing : Expectation} (hmissing : missing ≠ .oneDefault) :
    R (Option Node) (optionalUntil inner close missing) (optionalUntil inner' close missing) :=
  h.ifNext (h.closing _ (by simp) hmissing)
    (h.bind hi.expression fun _ => h.closing _ (by simp) hmissing)

theorem forInitializer (h : Congruence R) (hi : InnerRelated R inner inner') :
    R (Option Node) (forInitializer inner) (forInitializer inner') :=
  h.ifNext (h.bind (h.take (by simp) (by simp)) fun _ => h.map _ (h.initBody hi _)) (h.closing _)

theorem parameterNames (h : Congruence R) : R (List String) parameterNames parameterNames :=
  h.map _ (h.foldWhile rfl (h.map _ (h.take (by simp) (by simp))) (h.take (by simp) (by simp)))

theorem parametersUntil (h : Congruence R) : R (List String) parametersUntil parametersUntil :=
  h.ifNext (h.closing _) (h.bind h.parameterNames fun _ => h.closing _)

theorem structField (h : Congruence R) : R String structField structField :=
  h.bind (h.take (by simp) (by simp)) fun _ => h.closing _

theorem caseEntry (h : Congruence R) (hi : InnerRelated R inner inner') (entries : Entries) :
    R Entries (caseEntry inner entries) (caseEntry inner' entries) :=
  h.bind (h.take (by simp) (by simp)) fun _ => h.bind hi.expression fun _ =>
    h.bind (h.take (by simp) (by simp)) fun _ => h.map _ (hi.block "case")

/-- A second default is refused at its word. -/
theorem matchEntry (h : Congruence R) (hi : InnerRelated R inner inner') (entries : Entries) :
    R Entries (matchEntry inner entries) (matchEntry inner' entries) := by
  refine h.ifNext (h.caseEntry hi entries) ?_
  unfold defaultEntry
  split
  · exact h.refuseNext (h.fail (by simp))
  · refine h.ifNext ?_ (h.fail (by simp))
    exact h.bind (h.take (by simp) (by simp)) fun _ =>
      h.bind (h.take (by simp) (by simp)) fun _ => h.map _ (hi.block "default")

theorem blockWith (h : Congruence R) {body body' : Expectation → Parser (List Node)}
    (construct : String)
    (hbody : R (List Node) (body (.blockClose construct)) (body' (.blockClose construct))) :
    R (List Node) (blockWith body construct) (blockWith body' construct) :=
  h.bind (h.take (by simp) (by simp)) fun _ => hbody

/-! ## Productions -/

/-- **Every production but that of a macro region** is put together from these parts. -/
theorem production (h : Congruence R) (hi : InnerRelated R inner inner') (head : Token)
    {form : StatementForm} (hform : form ≠ .macroRegion) :
    R Node (production inner head form) (production inner' head form) := by
  cases form with
  | macroRegion => exact absurd rfl hform
  | init => exact h.initBody hi head
  | assignment =>
    exact h.bind (h.take (by simp) (by simp)) fun _ => h.bind hi.expression fun _ => h.closing _
  | ifElse =>
    exact h.bind (h.parenthesised hi (by simp) (by simp)) fun _ =>
      h.map _ (h.thenIf (by simp) (hi.block "if") (hi.block "else"))
  | forLoop =>
    exact h.bind (h.take (by simp) (by simp)) fun _ => h.bind (h.forInitializer hi) fun _ =>
      h.bind (h.optionalUntil hi _ (by simp)) fun _ =>
      h.bind (h.optionalUntil hi _ (by simp)) fun _ => h.map _ (hi.block "for")
  | whileLoop =>
    exact h.bind (h.parenthesised hi (by simp) (by simp)) fun _ => h.map _ (hi.block "while")
  | tryCatch =>
    exact h.bind (hi.block "try") fun _ => h.bind (h.take (by simp) (by simp)) fun _ =>
      h.map _ (hi.block "catch")
  | function =>
    exact h.bind (h.take (by simp) (by simp)) fun _ => h.bind (h.take (by simp) (by simp)) fun _ =>
      h.bind h.parametersUntil fun _ => h.map _ (hi.block "function")
  | matchWith =>
    exact h.bind (h.parenthesised hi (by simp) (by simp)) fun _ =>
      h.bind (h.take (by simp) (by simp)) fun _ =>
      h.map _ (h.foldUntil _ (by simp) (by simp) fun entries => h.matchEntry hi entries)
  | structDecl =>
    exact h.bind (h.take (by simp) (by simp)) fun _ => h.bind (h.take (by simp) (by simp)) fun _ =>
      h.map _ (h.manyUntil (by simp) (by simp) h.structField)
  | classDecl => exact h.bind (h.take (by simp) (by simp)) fun _ => h.map _ (hi.block "class")
  | alloc =>
    exact h.bind (h.take (by simp) (by simp)) fun _ =>
      h.bind (h.parenthesised hi (by simp) (by simp)) fun _ => h.closing _
  | free => exact h.bind (h.take (by simp) (by simp)) fun _ => h.closing _
  | start =>
    exact h.bind (hi.block "Start") fun _ => h.bind (h.take (by simp) (by simp)) fun _ =>
      h.closing _
  | loop | repeatLoop | async | mutex => exact h.map _ (hi.block _)
  | returnStmt | breakStmt | continueStmt => exact h.closing _
  | await | throw => exact h.bind hi.expression fun _ => h.closing _

end Production

/-! ## Any room -/

/-- Operands are related to themselves, by induction on the room. -/
theorem unary (h : Congruence R) : ∀ room, R Node (unary room) (unary room)
  | 0 => by
    rw [unary_zero]
    exact h.unaryWith (h.fail (by simp)) (h.fail (by simp))
  | room + 1 => by
    rw [unary_succ]
    exact h.unaryWith (h.unary room) (h.expressionOver (h.unary room))

theorem group (h : Congruence R) : ∀ room, R Node (group room) (group room)
  | 0 => h.fail (by simp)
  | room + 1 => h.expressionOver (h.unary room)

theorem primary (h : Congruence R) (room : Nat) : R Node (primary room) (primary room) :=
  h.primaryWith (h.group room)

theorem factor (h : Congruence R) (room : Nat) : R Node (factor room) (factor room) :=
  h.chain .factor (h.unary room)

theorem term (h : Congruence R) (room : Nat) : R Node (term room) (term room) :=
  h.chain .term (h.factor room)

theorem comparison (h : Congruence R) (room : Nat) : R Node (comparison room) (comparison room) :=
  h.chain .comparison (h.term room)

theorem equality (h : Congruence R) (room : Nat) : R Node (equality room) (equality room) :=
  h.chain .equality (h.comparison room)

/-- What stands in a block is related to itself if statements are. -/
theorem blockStatements (h : Congruence R)
    (hstatement : ∀ room, R Node (statement room) (statement room)) (construct : String) :
    ∀ room, R (List Node) (blockStatements room (.blockClose construct))
      (blockStatements room (.blockClose construct))
  | 0 => h.fail (by simp)
  | room + 1 => h.manyUntil (by simp) (by simp) (hstatement room)

/-- What statements contain is related to itself if statements are. -/
theorem inner (h : Congruence R) (hstatement : ∀ room, R Node (statement room) (statement room))
    (room : Nat) : InnerRelated R (inner room) (inner room) where
  expression := h.expressionOver (h.unary room)
  block construct := h.blockWith construct (h.blockStatements hstatement construct room)

/-- **Statements are related to themselves**, by induction on the room, if `statementWith` keeps the
relation. -/
theorem statement (h : Congruence R)
    (hwith : ∀ inner, InnerRelated R inner inner →
      R Node (statementWith inner) (statementWith inner)) :
    ∀ room, R Node (statement room) (statement room)
  | 0 => by
    rw [statement_eq]
    exact hwith _ ⟨h.expressionOver (h.unary 0), fun construct =>
      h.blockWith construct (h.fail (by simp))⟩
  | room + 1 => by
    rw [statement_eq]
    exact hwith _ ⟨h.expressionOver (h.unary _), fun construct =>
      h.blockWith construct (h.manyUntil (by simp) (by simp) (h.statement hwith room))⟩

end Congruence

end Parser

end ScriptFrontend
