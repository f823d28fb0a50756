import ScriptFrontend.Proofs.Parse.Parts

/-!
# Proofs/Parse/Statement — the parser of statements reads the statements of the grammar

`reads_production` ties each of the 23 productions to the derivations of its form, what is in front
of it being the form's first token.  A statement goes on with one kind only, the word that starts
the second body of an `if`.  `reads_statement` closes the circle by induction on the room.
-/

namespace ScriptFrontend

open Grammar

/-- The kind with which a statement may go on. -/
def elseFollows (kind : Kind) : Prop := kind = .keyword .elseWord

/-- What stands behind the first token of a statement. -/
def restOf (form : StatementForm) (head : Token) : Language Node :=
  fun word node => Statement form (head :: word) node

/-- Statements of any form. -/
def anyStatement : Language Node := fun word node => ∃ form, Statement form word node

namespace Parser

variable {inner : Inner} {head : Token} {room : Nat}

/-! ## Families of productions -/

theorem reads_bareBody {form : StatementForm} {node : Location → Node} {missing : Expectation}
    (hmissing : missing ≠ .shallower) (hform : ∀ word tree, restOf form head word tree ↔
      ∃ semicolon : Token, semicolon.kind = .mark .semicolon ∧ node head.place = tree ∧
        word = [semicolon]) :
    Reads (bareBody missing node head) room (restOf form head) nothing := by
  refine Reads.congr ((reads_take _ _ ⟨hmissing, by simp⟩).map _) fun word tree => (Iff.trans ?_
    (hform word tree).symm)
  constructor
  · rintro ⟨semicolon, ⟨hword, hsemi⟩, htree⟩
    exact ⟨semicolon, hsemi, htree, hword⟩
  · rintro ⟨semicolon, hsemi, htree, hword⟩
    exact ⟨semicolon, ⟨hword, hsemi⟩, htree⟩

theorem reads_valueBody (h : inner.Reads room) {form : StatementForm}
    {node : Node → Location → Node} {missing : Expectation}
    (hmissing : missing ≠ .shallower) (hform : ∀ word tree, restOf form head word tree ↔
      Language.closedBy .semicolon (fun value => node value head.place) word tree) :
    Reads (valueBody inner missing node head) room (restOf form head) nothing :=
  Reads.congr (h.expression.closedBy (not_joinsOperands_mark _) _ _ hmissing) fun word tree =>
    (hform word tree).symm

theorem reads_blockBody (h : inner.Reads room) {form : StatementForm}
    {node : List Node → Location → Node} {construct : String}
    (hform : ∀ word tree, restOf form head word tree ↔
      ∃ nodes, Block Statement word nodes ∧ node nodes head.place = tree) :
    Reads (blockBody inner construct node head) room (restOf form head) nothing :=
  Reads.congr ((h.block construct).map _) fun word tree => (hform word tree).symm

/-! ## Single productions

Each is the chain of its parts, and the words of the chain are the derivations of its form. -/

theorem reads_assignment (h : inner.Reads room) (hhead : head.kind = .identifier) :
    Reads (production inner head .assignment) room (restOf .assignment head) nothing := by
  refine Reads.congr (Reads.behind (by simp) fun _ _ => h.expression.closedBy
    (not_joinsOperands_mark _) _ _ (by simp)) fun word tree => ⟨?_, ?_⟩
  · rintro ⟨equals, _, hequals, ⟨value, _, semicolon, hvalue, hsemi, rfl, rfl⟩, rfl⟩
    exact .assignment hhead hequals hvalue hsemi
  · intro hstatement
    cases hstatement with
    | assignment _ hequals hvalue hsemi =>
      exact ⟨_, _, hequals, ⟨_, _, _, hvalue, hsemi, rfl, rfl⟩, rfl⟩

theorem reads_ifElse (h : inner.Reads room) (hhead : head.kind = .keyword .ifWord) :
    Reads (production inner head .ifElse) room (restOf .ifElse head) elseFollows := by
  refine Reads.congr ((reads_parenthesised h _ _ (by simp)).bind fun _ _ _ =>
    ((h.block _).thenIf (h.block _) _).map _) fun word tree => ⟨?_, ?_⟩
  · rintro ⟨_, condition, _, ⟨opening, _, hopening, ⟨tokens, _, closing, hcondition, hclosing, rfl,
      rfl⟩, rfl⟩, ⟨⟨nodes, _⟩, hbody | ⟨body, other, elseBody, elseNodes, hbody, hother, helse,
      hsome, rfl⟩, rfl⟩, rfl⟩
    · obtain ⟨hbody, rfl⟩ := hbody
      have := Statement.ifElse hhead hopening hcondition hclosing hbody
      simpa [restOf] using this
    · obtain rfl := hsome
      have := Statement.ifElseElse hhead hopening hcondition hclosing hbody hother helse
      simpa [restOf] using this
  · intro hstatement
    cases hstatement with
    | ifElse _ hopening hcondition hclosing hbody =>
      exact ⟨_ :: (_ ++ [_]), _, _, ⟨_, _, hopening, ⟨_, _, _, hcondition, hclosing, rfl, rfl⟩, rfl⟩,
        ⟨(_, none), .inl ⟨hbody, rfl⟩, rfl⟩, by simp⟩
    | ifElseElse _ hopening hcondition hclosing hbody hother helse =>
      exact ⟨_ :: (_ ++ [_]), _, _, ⟨_, _, hopening, ⟨_, _, _, hcondition, hclosing, rfl, rfl⟩, rfl⟩,
        ⟨(_, some _), .inr ⟨_, _, _, _, hbody, hother, helse, rfl, rfl⟩, rfl⟩, by simp⟩

theorem reads_forLoop (h : inner.Reads room) (hhead : head.kind = .keyword .forWord) :
    Reads (production inner head .forLoop) room (restOf .forLoop head) nothing := by
  refine Reads.congr (Reads.behind (by simp) fun _ _ => (reads_forInitializer h).bind fun _ _ _ =>
    (reads_optionalUntil h rfl _ (by simp)).bind fun _ _ _ =>
    (reads_optionalUntil h rfl _ (by simp)).bind fun _ _ _ => (h.block _).map _)
    fun word tree => ⟨?_, ?_⟩
  · rintro ⟨opening, _, hopening, ⟨first, _, _, hfirst, ⟨_, _, _, ⟨condition, semicolon, hcondition,
      hsemi, rfl⟩, ⟨_, _, body, ⟨increment, closing, hincrement, hclosing, rfl⟩, ⟨nodes, hbody,
      rfl⟩, rfl⟩, rfl⟩, rfl⟩, rfl⟩
    have := Statement.forLoop hhead hopening hfirst hcondition hsemi hincrement hclosing hbody
    simpa [restOf] using this
  · intro hstatement
    cases hstatement with
    | forLoop _ hopening hfirst hcondition hsemi hincrement hclosing hbody =>
      exact ⟨_, _, hopening, ⟨_, _, _, hfirst, ⟨_ ++ [_], _, _, ⟨_, _, hcondition, hsemi, rfl⟩,
        ⟨_ ++ [_], _, _, ⟨_, _, hincrement, hclosing, rfl⟩, ⟨_, hbody, rfl⟩, rfl⟩, rfl⟩, rfl⟩,
        by simp⟩

theorem reads_whileLoop (h : inner.Reads room) (hhead : head.kind = .keyword .whileWord) :
    Reads (production inner head .whileLoop) room (restOf .whileLoop head) nothing := by
  refine Reads.congr ((reads_parenthesised h _ _ (by simp)).bind fun _ _ _ => (h.block _).map _)
    fun word tree => ⟨?_, ?_⟩
  · rintro ⟨_, _, body, ⟨opening, _, hopening, ⟨condition, _, closing, hcondition, hclosing, rfl,
      rfl⟩, rfl⟩, ⟨nodes, hbody, rfl⟩, rfl⟩
    have := Statement.whileLoop hhead hopening hcondition hclosing hbody
    simpa [restOf] using this
  · intro hstatement
    cases hstatement with
    | whileLoop _ hopening hcondition hclosing hbody =>
      exact ⟨_ :: (_ ++ [_]), _, _, ⟨_, _, hopening, ⟨_, _, _, hcondition, hclosing, rfl, rfl⟩, rfl⟩,
        ⟨_, hbody, rfl⟩, by simp⟩

theorem reads_tryCatch (h : inner.Reads room) (hhead : head.kind = .keyword .tryWord) :
    Reads (production inner head .tryCatch) room (restOf .tryCatch head) nothing := by
  refine Reads.congr ((h.block _).bind fun _ _ _ => Reads.behind (by simp) fun _ _ =>
    (h.block _).map _) fun word tree => ⟨?_, ?_⟩
  · rintro ⟨body, nodes, _, hbody, ⟨other, catchBody, hother, ⟨catchNodes, hcatch, rfl⟩, rfl⟩, rfl⟩
    exact .tryCatch hhead hbody hother hcatch
  · intro hstatement
    cases hstatement with
    | tryCatch _ hbody hother hcatch =>
      exact ⟨_, _, _, hbody, ⟨_, _, hother, ⟨_, hcatch, rfl⟩, rfl⟩, rfl⟩

theorem reads_macroRegion (hhead : head.kind = .operator .pipe) :
    Reads (production inner head .macroRegion) room (restOf .macroRegion head) nothing := by
  refine Reads.congr (Reads.behind (by simp) fun _ _ => Reads.behind (by simp) fun _ _ =>
    (reads_skipThrough _ _ (by simp)).map _) fun word tree => ⟨?_, ?_⟩
  · rintro ⟨name, _, hname, ⟨colon, _, hcolon, ⟨_, ⟨skipped, closing, hskipped, hclosing, rfl⟩,
      rfl⟩, rfl⟩, rfl⟩
    exact .macroRegion hhead hname hcolon hskipped hclosing
  · intro hstatement
    cases hstatement with
    | macroRegion _ hname hcolon hskipped hclosing =>
      exact ⟨_, _, hname, ⟨_, _, hcolon, ⟨(), ⟨_, _, hskipped, hclosing, rfl⟩, rfl⟩, rfl⟩, rfl⟩

theorem reads_function (h : inner.Reads room) (hhead : head.kind = .keyword .func) :
    Reads (production inner head .function) room (restOf .function head) nothing := by
  refine Reads.congr (Reads.behind (by simp) fun _ _ => Reads.behind (by simp) fun _ _ =>
    reads_parametersUntil.bind fun _ _ _ => (h.block _).map _) fun word tree => ⟨?_, ?_⟩
  · rintro ⟨name, _, hname, ⟨opening, _, hopening, ⟨_, names, body, ⟨parameters, closing, hparameters,
      hclosing, rfl⟩, ⟨nodes, hbody, rfl⟩, rfl⟩, rfl⟩, rfl⟩
    have := Statement.function hhead hname hopening hparameters hclosing hbody
    simpa [restOf] using this
  · intro hstatement
    cases hstatement with
    | function _ hname hopening hparameters hclosing hbody =>
      exact ⟨_, _, hname, ⟨_, _, hopening, ⟨_ ++ [_], _, _, ⟨_, _, hparameters, hclosing, rfl⟩,
        ⟨_, hbody, rfl⟩, rfl⟩, rfl⟩, by simp⟩

theorem reads_matchWith (h : inner.Reads room) (hhead : head.kind = .keyword .matchWord) :
    Reads (production inner head .matchWith) room (restOf .matchWith head) nothing := by
  refine Reads.congr ((reads_parenthesised h _ _ (by simp)).bind fun _ _ _ =>
    Reads.behind (by simp) fun _ _ => (reads_matchEntries h).map _) fun word tree => ⟨?_, ?_⟩
  · rintro ⟨_, _, _, ⟨opening, _, hopening, ⟨subject, _, closing, hsubject, hclosing, rfl, rfl⟩,
      rfl⟩, ⟨leftBrace, _, hleft, ⟨all, ⟨entries, rightBrace, hentries, hright, rfl⟩, rfl⟩, rfl⟩,
      rfl⟩
    have := Statement.matchWith hhead hopening hsubject hclosing hleft hentries hright
    simpa [restOf] using this
  · intro hstatement
    cases hstatement with
    | @matchWith _ _ _ _ _ _ _ _ cases _ _ hopening hsubject hclosing hleft hentries hright =>
      exact ⟨_ :: (_ ++ [_]), _, _, ⟨_, _, hopening, ⟨_, _, _, hsubject, hclosing, rfl, rfl⟩, rfl⟩,
        ⟨_, _, hleft, ⟨⟨cases.reverse, _⟩, ⟨_, _, by simpa using hentries, hright, rfl⟩, by simp⟩,
        rfl⟩, by simp⟩

theorem reads_structDecl (hhead : head.kind = .keyword .struct) :
    Reads (production inner head .structDecl) room (restOf .structDecl head) nothing := by
  refine Reads.congr (Reads.behind (by simp) fun _ _ => Reads.behind (by simp) fun _ _ =>
    reads_structFields.map _) fun word tree => ⟨?_, ?_⟩
  · rintro ⟨name, _, hname, ⟨leftBrace, _, hleft, ⟨names, ⟨fields, rightBrace, hfields, hright,
      rfl⟩, rfl⟩, rfl⟩, rfl⟩
    exact .structDecl hhead hname hleft hfields hright
  · intro hstatement
    cases hstatement with
    | structDecl _ hname hleft hfields hright =>
      exact ⟨_, _, hname, ⟨_, _, hleft, ⟨_, ⟨_, _, hfields, hright, rfl⟩, rfl⟩, rfl⟩, rfl⟩

theorem reads_classDecl (h : inner.Reads room) (hhead : head.kind = .keyword .classWord) :
    Reads (production inner head .classDecl) room (restOf .classDecl head) nothing := by
  refine Reads.congr (Reads.behind (by simp) fun _ _ => (h.block _).map _) fun word tree => ⟨?_, ?_⟩
  · rintro ⟨name, body, hname, ⟨nodes, hbody, rfl⟩, rfl⟩
    exact .classDecl hhead hname hbody
  · intro hstatement
    cases hstatement with
    | classDecl _ hname hbody => exact ⟨_, _, hname, ⟨_, hbody, rfl⟩, rfl⟩

theorem reads_alloc (h : inner.Reads room) (hhead : head.kind = .keyword .alloc) :
    Reads (production inner head .alloc) room (restOf .alloc head) nothing := by
  refine Reads.congr (Reads.behind (by simp) fun _ _ =>
    (reads_parenthesised h _ _ (by simp)).bind fun _ _ _ => (reads_take _ _ (by simp)).map _)
    fun word tree => ⟨?_, ?_⟩
  · rintro ⟨name, _, hname, ⟨_, _, _, ⟨opening, _, hopening, ⟨size, _, closing, hsize, hclosing,
      rfl, rfl⟩, rfl⟩, ⟨semicolon, ⟨rfl, hsemi⟩, rfl⟩, rfl⟩, rfl⟩
    have := Statement.alloc hhead hname hopening hsize hclosing hsemi
    simpa [restOf] using this
  · intro hstatement
    cases hstatement with
    | alloc _ hname hopening hsize hclosing hsemi =>
      exact ⟨_, _, hname, ⟨_ :: (_ ++ [_]), _, _, ⟨_, _, hopening, ⟨_, _, _, hsize, hclosing, rfl,
        rfl⟩, rfl⟩, ⟨_, ⟨rfl, hsemi⟩, rfl⟩, rfl⟩, by simp⟩

theorem reads_free (hhead : head.kind = .keyword .free) :
    Reads (production inner head .free) room (restOf .free head) nothing := by
  refine Reads.congr (Reads.behind (by simp) fun _ _ => (reads_take _ _ (by simp)).map _)
    fun word tree => ⟨?_, ?_⟩
  · rintro ⟨name, _, hname, ⟨semicolon, ⟨rfl, hsemi⟩, rfl⟩, rfl⟩
    exact .free hhead hname hsemi
  · intro hstatement
    cases hstatement with
    | free _ hname hsemi => exact ⟨_, _, hname, ⟨_, ⟨rfl, hsemi⟩, rfl⟩, rfl⟩

theorem reads_start (h : inner.Reads room) (hhead : head.kind = .keyword .start) :
    Reads (production inner head .start) room (restOf .start head) nothing := by
  refine Reads.congr ((h.block _).bind fun _ _ _ => Reads.behind (by simp) fun _ _ =>
    (reads_take _ _ (by simp)).map _) fun word tree => ⟨?_, ?_⟩
  · rintro ⟨body, nodes, _, hbody, ⟨other, _, hother, ⟨semicolon, ⟨rfl, hsemi⟩, rfl⟩, rfl⟩, rfl⟩
    exact .start hhead hbody hother hsemi
  · intro hstatement
    cases hstatement with
    | start _ hbody hother hsemi =>
      exact ⟨_, _, _, hbody, ⟨_, _, hother, ⟨_, ⟨rfl, hsemi⟩, rfl⟩, rfl⟩, rfl⟩

/-- **What stands behind the first token of a statement** of each form. -/
theorem reads_production (h : inner.Reads room) (form : StatementForm)
    (hhead : head.kind = form.kind) :
    Reads (production inner head form) room (restOf form head) elseFollows := by
  have never {form : StatementForm}
      (h : Reads (production inner head form) room (restOf form head) nothing) :
      Reads (production inner head form) room (restOf form head) elseFollows :=
    h.mono fun _ => False.elim
  cases form with
  | init => exact never (reads_initBody h hhead)
  | assignment => exact never (reads_assignment h hhead)
  | ifElse => exact reads_ifElse h hhead
  | forLoop => exact never (reads_forLoop h hhead)
  | whileLoop => exact never (reads_whileLoop h hhead)
  | loop =>
    refine never (reads_blockBody h fun word tree => ⟨?_, ?_⟩)
    · intro hstatement
      cases hstatement with
      | loop _ hbody => exact ⟨_, hbody, rfl⟩
    · rintro ⟨nodes, hbody, rfl⟩
      exact .loop hhead hbody
  | repeatLoop =>
    refine never (reads_blockBody h fun word tree => ⟨?_, ?_⟩)
    · intro hstatement
      cases hstatement with
      | repeatLoop _ hbody => exact ⟨_, hbody, rfl⟩
    · rintro ⟨nodes, hbody, rfl⟩
      exact .repeatLoop hhead hbody
  | tryCatch => exact never (reads_tryCatch h hhead)
  | macroRegion => exact never (reads_macroRegion hhead)
  | function => exact never (reads_function h hhead)
  | returnStmt =>
    refine never (reads_bareBody (by simp) fun word tree => ⟨?_, ?_⟩)
    · intro hstatement
      cases hstatement with
      | returnStmt _ hsemi => exact ⟨_, hsemi, rfl, rfl⟩
    · rintro ⟨semicolon, hsemi, rfl, rfl⟩
      exact .returnStmt hhead hsemi
  | matchWith => exact never (reads_matchWith h hhead)
  | async =>
    refine never (reads_blockBody h fun word tree => ⟨?_, ?_⟩)
    · intro hstatement
      cases hstatement with
      | async _ hbody => exact ⟨_, hbody, rfl⟩
    · rintro ⟨nodes, hbody, rfl⟩
      exact .async hhead hbody
  | await =>
    refine never (reads_valueBody h (by simp) fun word tree => ⟨?_, ?_⟩)
    · intro hstatement
      cases hstatement with
      | await _ hvalue hsemi => exact ⟨_, _, _, hvalue, hsemi, rfl, rfl⟩
    · rintro ⟨value, node, semicolon, hvalue, hsemi, rfl, rfl⟩
      exact .await hhead hvalue hsemi
  | mutex =>
    refine never (reads_blockBody h fun word tree => ⟨?_, ?_⟩)
    · intro hstatement
      cases hstatement with
      | mutex _ hbody => exact ⟨_, hbody, rfl⟩
    · rintro ⟨nodes, hbody, rfl⟩
      exact .mutex hhead hbody
  | structDecl => exact never (reads_structDecl hhead)
  | classDecl => exact never (reads_classDecl h hhead)
  | alloc => exact never (reads_alloc h hhead)
  | free => exact never (reads_free hhead)
  | start => exact never (reads_start h hhead)
  | throw =>
    refine never (reads_valueBody h (by simp) fun word tree => ⟨?_, ?_⟩)
    · intro hstatement
      cases hstatement with
      | throw _ hvalue hsemi => exact ⟨_, _, _, hvalue, hsemi, rfl, rfl⟩
    · rintro ⟨value, node, semicolon, hvalue, hsemi, rfl, rfl⟩
      exact .throw hhead hvalue hsemi
  | breakStmt =>
    refine never (reads_bareBody (by simp) fun word tree => ⟨?_, ?_⟩)
    · intro hstatement
      cases hstatement with
      | breakStmt _ hsemi => exact ⟨_, hsemi, rfl, rfl⟩
    · rintro ⟨semicolon, hsemi, rfl, rfl⟩
      exact .breakStmt hhead hsemi
  | continueStmt =>
    refine never (reads_bareBody (by simp) fun word tree => ⟨?_, ?_⟩)
    · intro hstatement
      cases hstatement with
      | continueStmt _ hsemi => exact ⟨_, hsemi, rfl, rfl⟩
    · rintro ⟨semicolon, hsemi, rfl, rfl⟩
      exact .continueStmt hhead hsemi

/-! ## Statements of any form -/

@[simp] theorem read_statementWith_nil (inner : Inner) :
    (statementWith inner).read [] = (.error .statement, []) := rfl

/-- The first token's kind chooses the production. -/
theorem read_statementWith_cons (inner : Inner) (token : Token) (rest : List Token) :
    (statementWith inner).read (token :: rest) =
      match StatementForm.ofKind? token.kind with
      | some form => (production inner token form).read rest
      | none => (.error (noStatement token), token :: rest) := by
  simp only [read, statementWith]
  cases StatementForm.ofKind? token.kind with
  | none => rfl
  | some form => exact Outcome.reply_widen (Nat.le_succ _) _

theorem noStatement_ne_shallower (token : Token) : noStatement token ≠ .shallower := by
  unfold noStatement
  split <;> simp

/-- The shortest statement. -/
theorem viable_anyStatement : Language.Viable anyStatement [] :=
  ⟨[⟨.keyword .breakWord, "", .start⟩, ⟨.mark .semicolon, "", .start⟩], _,
    ⟨_, .breakStmt rfl rfl⟩, by simp⟩

theorem anyStatement_startsWith {word : List Token} {node : Node} (h : anyStatement word node) :
    StartsWith (fun kind => ∃ form : StatementForm, form.kind = kind) word := by
  obtain ⟨form, hform⟩ := h
  exact hform.startsWith.imp fun kind hkind => ⟨form, hkind.symm⟩

theorem local_statementWith (h : inner.Reads room) : Local (statementWith inner) room where
  ahead {tokens answer rest} hread := by
    rcases tokens with _ | ⟨token, behind⟩
    · obtain ⟨rfl, rfl⟩ := Prod.mk.inj hread
      refine ⟨[], rfl, fun other hother => ?_⟩
      obtain rfl : other = [] := by simpa using hother
      rfl
    rw [read_statementWith_cons] at hread
    rcases hform : StatementForm.ofKind? token.kind with _ | form
    · rw [hform] at hread
      obtain ⟨rfl, rfl⟩ := Prod.mk.inj hread
      refine ⟨[], rfl, fun other hother => ?_⟩
      obtain ⟨tail, rfl⟩ : ∃ tail, other = token :: tail := List.head?_eq_some_iff.1 hother
      rw [List.nil_append, read_statementWith_cons, hform]
    · rw [hform] at hread
      have hkind := (StatementForm.ofKind?_eq_some_iff.1 hform).symm
      obtain ⟨front, rfl, hfront⟩ := (reads_production h form hkind).ahead hread
      refine ⟨token :: front, rfl, fun other hother => ?_⟩
      rw [List.cons_append, read_statementWith_cons, hform]
      exact hfront other hother
  deep {tokens rest} hread := by
    rcases tokens with _ | ⟨token, behind⟩
    · simp at hread
    rw [read_statementWith_cons] at hread
    rcases hform : StatementForm.ofKind? token.kind with _ | form
    · rw [hform] at hread
      exact absurd (by simpa using congrArg Prod.fst hread) (noStatement_ne_shallower token)
    · rw [hform] at hread
      have hkind := (StatementForm.ofKind?_eq_some_iff.1 hform).symm
      exact Nat.le_succ_of_le ((reads_production h form hkind).deep hread)

/-- Statements, given what reads the expressions and blocks in them. -/
theorem reads_statementWith (h : inner.Reads room) :
    Reads (statementWith inner) room anyStatement elseFollows where
  toLocal := local_statementWith h
  word := viable_anyStatement
  sound {tokens node rest} hread := by
    rcases tokens with _ | ⟨token, behind⟩
    · simp at hread
    rw [read_statementWith_cons] at hread
    rcases hform : StatementForm.ofKind? token.kind with _ | form
    · simp [hform] at hread
    · rw [hform] at hread
      have hkind := (StatementForm.ofKind?_eq_some_iff.1 hform).symm
      obtain ⟨word, hword, rfl⟩ := (reads_production h form hkind).sound hread
      exact ⟨token :: word, ⟨form, hword⟩, rfl⟩
  complete {word node rest} hword hrest := by
    obtain ⟨form, hform⟩ := hword
    obtain ⟨head, tail, rfl, hkind⟩ := hform.startsWith
    unfold Gives
    rw [List.cons_append, read_statementWith_cons, hkind, StatementForm.ofKind?_kind]
    exact (reads_production h form hkind).complete hform hrest
  viable {tokens e rest} hread hne := by
    rcases tokens with _ | ⟨token, behind⟩
    · obtain ⟨-, rfl⟩ := Prod.mk.inj hread
      exact ⟨[], viable_anyStatement, rfl⟩
    rw [read_statementWith_cons] at hread
    rcases hform : StatementForm.ofKind? token.kind with _ | form
    · rw [hform] at hread
      obtain ⟨-, rfl⟩ := Prod.mk.inj hread
      exact ⟨[], viable_anyStatement, rfl⟩
    · rw [hform] at hread
      have hkind := (StatementForm.ofKind?_eq_some_iff.1 hform).symm
      obtain ⟨front, ⟨back, node, hword, hfree⟩, rfl⟩ :=
        (reads_production h form hkind).viable hread hne
      exact ⟨token :: front, ⟨back, node, ⟨form, hword⟩, hfree⟩, rfl⟩

/-! ## Blocks, and any room -/

theorem many_statements_iff {word : List Token} {nodes : List Node} :
    Language.Many anyStatement word nodes ↔ Statements Statement word nodes := by
  constructor
  · intro h
    induction h with
    | nil => exact .nil
    | cons hfront _ ih =>
      obtain ⟨form, hform⟩ := hfront
      exact .cons hform ih
  · intro h
    induction h with
    | nil => exact .nil
    | cons hform _ ih => exact .cons ⟨_, hform⟩ ih

/-- The statements of a block with its closing brace. -/
def blockRest : Language (List Node) := .closed (.mark .rightBrace) (.Many anyStatement)

theorem reads_blockWith {body : Expectation → Parser (List Node)} (construct : String)
    (h : ∀ construct, Reads (body (.blockClose construct)) room blockRest nothing) :
    Reads (blockWith body construct) (room + 1) (Block Statement) nothing := by
  have hblock : Reads (blockWith body construct) room (Block Statement) nothing := by
    refine Reads.congr (Reads.behind (by simp) fun _ _ => h construct) fun word nodes => ⟨?_, ?_⟩
    · rintro ⟨opening, _, hopening, ⟨tokens, closing, htokens, hclosing, rfl⟩, rfl⟩
      exact .braces hopening (many_statements_iff.1 htokens) hclosing
    · rintro ⟨hopening, htokens, hclosing⟩
      exact ⟨_, _, hopening, ⟨_, _, many_statements_iff.2 htokens, hclosing, rfl⟩, rfl⟩
  exact { hblock with toLocal := .behind (by simp) fun _ _ => (h construct).toLocal }

theorem viable_blockRest : Language.Viable blockRest [] :=
  ⟨[⟨.mark .rightBrace, "", .start⟩], [], ⟨[], _, .nil, rfl, rfl⟩, by simp⟩

theorem reads_blockStatements_succ
    (h : Reads (statement room) (room + 1) anyStatement elseFollows) (construct : String) :
    Reads (blockStatements (room + 1) (.blockClose construct)) (room + 1) blockRest nothing := by
  refine h.manyUntil (fun word node hword => ?_) (by simp [elseFollows]) _ (by simp)
  refine (anyStatement_startsWith hword).imp ?_
  rintro _ ⟨form, rfl⟩
  cases form <;> simp [StatementForm.kind, elseFollows]

/-- **Statements**, by induction on the room. -/
theorem reads_statement : ∀ room, Reads (statement room) (room + 1) anyStatement elseFollows
  | 0 => by
    rw [statement_eq]
    exact reads_statementWith ⟨reads_expression 0, fun construct =>
      reads_blockWith construct fun _ => reads_shallower viable_blockRest⟩
  | room + 1 => by
    rw [statement_eq]
    exact reads_statementWith ⟨reads_expression _, fun construct =>
      reads_blockWith construct (reads_blockStatements_succ (reads_statement room))⟩

end Parser

end ScriptFrontend
