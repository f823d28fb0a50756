import ScriptFrontend.Proofs.Parse.Agree
import ScriptFrontend.Proofs.Parse.Prefix

/-!
# Proofs/Parse/Alike — programs are read alike from lists that match

Statements, blocks and programs are put together from parsers that agree, so they agree
(`agrees_statement`).  Two lists of tokens that match one by one are both accepted, with trees that
are relabelled, or both rejected, at the same index (`parseProgram_aligned`).

The case of interest is that nothing but places and the spellings of words and marks differs
(`Token.essence`): then the trees are equal up to places (`readAlike_of_essence`).
-/

namespace ScriptFrontend

namespace Parser

variable {text : String → String} {words : String → String → Prop} {move : Location → Location}

/-- Trees, and the trees with other texts and places. -/
abbrev RelabelledAll (text : String → String) (move : Location → Location)
    (list list' : List Node) : Prop :=
  list' = list.map (Node.relabel text move)

/-- Parsers of what statements contain that agree. -/
structure InnerAgrees (text : String → String) (words : String → String → Prop)
    (move : Location → Location) (inner : Inner) : Prop where
  expression : Agrees text words move (Relabelled text move) inner.expression inner.expression
  block : ∀ construct,
    Agrees text words move (RelabelledAll text move) (inner.block construct) (inner.block construct)

section Production

variable {inner : Inner} {head head' : Token}

/-! ## Parts of statements -/

theorem agrees_initBody (h : InnerAgrees text words move inner)
    (hhead : head.Matches text words move head') :
    Agrees text words move (Relabelled text move) (initBody inner head) (initBody inner head') := by
  refine (agrees_take .identifier (.refl _)).bind fun name name' hname => ?_
  refine (agrees_take (.operator .assign) (.refl _)).bind fun _ _ _ => ?_
  refine h.expression.bind fun value value' hvalue => agrees_closing _ _ ?_
  rw [Relabelled, Node.relabel, lexeme_of_identifier hname.1 hname.2, hvalue, hhead.place]

theorem agrees_parenthesised (h : InnerAgrees text words move inner)
    (opening closing : Expectation) :
    Agrees text words move (Relabelled text move) (parenthesised inner opening closing)
      (parenthesised inner opening closing) := by
  refine (agrees_take _ (.refl _)).bind fun _ _ _ => ?_
  exact h.expression.bind fun _ _ hvalue => agrees_closing _ _ hvalue

/-- An optional tree, and the optional tree with other texts and places. -/
abbrev RelabelledPart (text : String → String) (move : Location → Location)
    (part part' : Option Node) : Prop :=
  part' = part.map (Node.relabel text move)

theorem agrees_optionalUntil (h : InnerAgrees text words move inner) (close : Mark)
    (missing : Expectation) :
    Agrees text words move (RelabelledPart text move) (optionalUntil inner close missing)
      (optionalUntil inner close missing) := by
  refine Agrees.ifNext (R := RelabelledPart text move) (agrees_closing _ _ rfl)
    (h.expression.bind fun _ _ hvalue => ?_) _
  exact agrees_closing _ _ (congrArg some hvalue)

theorem agrees_forInitializer (h : InnerAgrees text words move inner) :
    Agrees text words move (RelabelledPart text move) (forInitializer inner)
      (forInitializer inner) := by
  refine Agrees.ifNext (R := RelabelledPart text move)
    (Agrees.bind (agrees_take _ (.refl _)) fun head head' hhead => ?_) (agrees_closing _ _ rfl) _
  exact (agrees_initBody h hhead.1).map fun _ _ hvalue => congrArg some hvalue

/-- The names of a list, and other ones in their places. -/
abbrev Renamed (text : String → String) (names names' : List String) : Prop :=
  names' = names.map text

theorem agrees_parameterNames :
    Agrees text words move (Renamed text) parameterNames parameterNames := by
  refine Agrees.map (R := Renamed text) ?_ fun _ _ hnames => by
    rw [Renamed, hnames, List.map_reverse]
  refine Agrees.foldWhile ?_ (agrees_take .identifier (.refl _))
    fun names names' _ _ name name' hnames _ _ hname => ?_
  · refine (agrees_take .identifier (.refl _)).map fun name name' hname => ?_
    rw [Renamed, lexeme_of_identifier hname.1 hname.2, List.map_singleton]
  · rw [Renamed, hnames, lexeme_of_identifier hname.1 hname.2, List.map_cons]

theorem agrees_parametersUntil :
    Agrees text words move (Renamed text) parametersUntil parametersUntil := by
  refine Agrees.ifNext (R := Renamed text) (agrees_closing _ _ rfl) ?_ _
  exact agrees_parameterNames.bind fun _ _ hnames => agrees_closing _ _ hnames

theorem agrees_structField :
    Agrees text words move (fun name name' => name' = text name) structField structField := by
  refine (agrees_take .identifier (.refl _)).bind fun name name' hname => agrees_closing _ _ ?_
  exact lexeme_of_identifier hname.1 hname.2

/-- The entries of a match with other texts and places. -/
def relabelledEntries (text : String → String) (move : Location → Location) (entries : Entries) :
    Entries :=
  ⟨entries.cases.map (Node.relabel text move),
    entries.defaultBody.map (List.map (Node.relabel text move))⟩

/-- The entries of a match, and the entries with other texts and places. -/
abbrev RelabelledEntries (text : String → String) (move : Location → Location)
    (entries entries' : Entries) : Prop :=
  entries' = relabelledEntries text move entries

theorem agrees_caseEntry (h : InnerAgrees text words move inner) (entries : Entries) :
    Agrees text words move (RelabelledEntries text move) (caseEntry inner entries)
      (caseEntry inner (relabelledEntries text move entries)) := by
  refine (agrees_take _ (.refl _)).bind fun head head' hhead => ?_
  refine h.expression.bind fun pattern pattern' hpattern => ?_
  refine (agrees_take _ (.refl _)).bind fun _ _ _ => ?_
  refine (h.block "case").map fun body body' hbody => ?_
  rw [RelabelledEntries, hpattern, hbody, hhead.1.place]
  simp [relabelledEntries, Node.relabel]

theorem agrees_defaultEntry (h : InnerAgrees text words move inner) (entries : Entries) :
    Agrees text words move (RelabelledEntries text move) (defaultEntry inner entries)
      (defaultEntry inner (relabelledEntries text move entries)) := by
  unfold defaultEntry
  rw [relabelledEntries, Option.isSome_map]
  split
  · exact agrees_fail (.refl _)
  · refine (agrees_take _ (.refl _)).bind fun _ _ _ => ?_
    refine (agrees_take _ (.refl _)).bind fun _ _ _ => ?_
    refine (h.block "default").map fun body body' hbody => ?_
    rw [RelabelledEntries, hbody]
    rfl

theorem agrees_matchEntry (h : InnerAgrees text words move inner) {entries entries' : Entries}
    (hentries : RelabelledEntries text move entries entries') :
    Agrees text words move (RelabelledEntries text move) (matchEntry inner entries)
      (matchEntry inner entries') := by
  rw [hentries]
  exact (agrees_caseEntry h entries).ifNext
    ((agrees_defaultEntry h entries).ifNext (agrees_fail (.refl _)) _) _

/-! ## Productions -/

theorem agrees_blockBody (h : InnerAgrees text words move inner) (construct : String)
    {node : List Node → Location → Node}
    (hnode : ∀ body place, (node body place).relabel text move =
      node (body.map (Node.relabel text move)) (move place))
    (hhead : head.Matches text words move head') :
    Agrees text words move (Relabelled text move) (blockBody inner construct node head)
      (blockBody inner construct node head') := by
  refine (h.block construct).map fun body body' hbody => ?_
  rw [Relabelled, hnode, hbody, hhead.place]

theorem agrees_bareBody (missing : Expectation) {node : Location → Node}
    (hnode : ∀ place, (node place).relabel text move = node (move place))
    (hhead : head.Matches text words move head') :
    Agrees text words move (Relabelled text move) (bareBody missing node head)
      (bareBody missing node head') := by
  refine agrees_closing _ _ ?_
  rw [Relabelled, hnode, hhead.place]

theorem agrees_valueBody (h : InnerAgrees text words move inner) (missing : Expectation)
    {node : Node → Location → Node}
    (hnode : ∀ value place, (node value place).relabel text move =
      node (value.relabel text move) (move place))
    (hhead : head.Matches text words move head') :
    Agrees text words move (Relabelled text move) (valueBody inner missing node head)
      (valueBody inner missing node head') := by
  refine h.expression.bind fun value value' hvalue => agrees_closing _ _ ?_
  rw [Relabelled, hnode, hvalue, hhead.place]

theorem agrees_assignment (h : InnerAgrees text words move inner)
    (hhead : head.Matches text words move head')
    (hkind : head.kind = .identifier) :
    Agrees text words move (Relabelled text move) (production inner head .assignment)
      (production inner head' .assignment) := by
  refine (agrees_take _ (.assignAfter (hhead.word (by rw [hkind]; rfl)))).bind fun _ _ _ => ?_
  refine h.expression.bind fun value value' hvalue => agrees_closing _ _ ?_
  rw [Relabelled, Node.relabel, lexeme_of_identifier hhead hkind, hvalue, hhead.place]

theorem agrees_ifElse (h : InnerAgrees text words move inner)
    (hhead : head.Matches text words move head') :
    Agrees text words move (Relabelled text move) (production inner head .ifElse)
      (production inner head' .ifElse) := by
  refine (agrees_parenthesised h _ _).bind fun condition condition' hcondition => ?_
  refine ((h.block "if").thenIf (h.block "else") _).map fun bodies bodies' hbodies => ?_
  rw [Relabelled, Node.relabel, hcondition, hbodies.1, hbodies.2, hhead.place,
    Node.relabelAll_eq_map, Node.relabelAll?_eq_map]

theorem agrees_forLoop (h : InnerAgrees text words move inner)
    (hhead : head.Matches text words move head') :
    Agrees text words move (Relabelled text move) (production inner head .forLoop)
      (production inner head' .forLoop) := by
  refine (agrees_take _ (.refl _)).bind fun _ _ _ => ?_
  refine (agrees_forInitializer h).bind fun initializer initializer' hinitializer => ?_
  refine (agrees_optionalUntil h _ _).bind fun condition condition' hcondition => ?_
  refine (agrees_optionalUntil h _ _).bind fun increment increment' hincrement => ?_
  refine (h.block "for").map fun body body' hbody => ?_
  rw [Relabelled, Node.relabel, hinitializer, hcondition, hincrement, hbody, hhead.place]
  simp only [Node.relabel?_eq_map, Node.relabelAll_eq_map]

theorem agrees_whileLoop (h : InnerAgrees text words move inner)
    (hhead : head.Matches text words move head') :
    Agrees text words move (Relabelled text move) (production inner head .whileLoop)
      (production inner head' .whileLoop) := by
  refine (agrees_parenthesised h _ _).bind fun condition condition' hcondition => ?_
  refine (h.block "while").map fun body body' hbody => ?_
  rw [Relabelled, Node.relabel, hcondition, hbody, hhead.place, Node.relabelAll_eq_map]

theorem agrees_tryCatch (h : InnerAgrees text words move inner)
    (hhead : head.Matches text words move head') :
    Agrees text words move (Relabelled text move) (production inner head .tryCatch)
      (production inner head' .tryCatch) := by
  refine (h.block "try").bind fun tryBody tryBody' htry => ?_
  refine (agrees_take _ (.refl _)).bind fun _ _ _ => ?_
  refine (h.block "catch").map fun catchBody catchBody' hcatch => ?_
  rw [Relabelled, Node.relabel, htry, hcatch, hhead.place]
  simp only [Node.relabelAll_eq_map]

theorem agrees_macroRegion (hhead : head.Matches text words move head') :
    Agrees text words move (Relabelled text move) (production inner head .macroRegion)
      (production inner head' .macroRegion) := by
  refine (agrees_take .identifier (.refl _)).bind fun name name' hname => ?_
  have hclose : Expectation.Requoted words (.macroClose name.lexeme) (.macroClose name'.lexeme) :=
    .macroClose (hname.1.word (by rw [hname.2]; rfl))
  refine (agrees_take _ (.refl _)).bind fun _ _ _ => (agrees_skipThrough hclose).as ?_
  rw [Relabelled, Node.relabel, lexeme_of_identifier hname.1 hname.2, hhead.place]

theorem agrees_function (h : InnerAgrees text words move inner)
    (hhead : head.Matches text words move head') :
    Agrees text words move (Relabelled text move) (production inner head .function)
      (production inner head' .function) := by
  refine (agrees_take .identifier (.refl _)).bind fun name name' hname => ?_
  refine (agrees_take _ (.refl _)).bind fun _ _ _ => ?_
  refine agrees_parametersUntil.bind fun parameters parameters' hparameters => ?_
  refine (h.block "function").map fun body body' hbody => ?_
  rw [Relabelled, Node.relabel, lexeme_of_identifier hname.1 hname.2, hparameters, hbody,
    hhead.place, Node.relabelAll_eq_map]

theorem agrees_matchWith (h : InnerAgrees text words move inner)
    (hhead : head.Matches text words move head') :
    Agrees text words move (Relabelled text move) (production inner head .matchWith)
      (production inner head' .matchWith) := by
  refine (agrees_parenthesised h _ _).bind fun subject subject' hsubject => ?_
  refine (agrees_take _ (.refl _)).bind fun _ _ _ => ?_
  refine (Agrees.foldUntil (R := RelabelledEntries text move)
    (fun _ _ hentries => agrees_matchEntry h hentries) rfl).map fun entries entries' hentries => ?_
  rw [Relabelled, Node.relabel, hsubject, hentries, hhead.place]
  simp only [relabelledEntries, Node.relabelAll_eq_map, Node.relabelAll?_eq_map, List.map_reverse]

theorem agrees_structDecl (hhead : head.Matches text words move head') :
    Agrees text words move (Relabelled text move) (production inner head .structDecl)
      (production inner head' .structDecl) := by
  refine (agrees_take .identifier (.refl _)).bind fun name name' hname => ?_
  refine (agrees_take _ (.refl _)).bind fun _ _ _ => ?_
  refine agrees_structField.manyUntil.map fun fields fields' hfields => ?_
  rw [Relabelled, Node.relabel, lexeme_of_identifier hname.1 hname.2, hfields, hhead.place]

theorem agrees_classDecl (h : InnerAgrees text words move inner)
    (hhead : head.Matches text words move head') :
    Agrees text words move (Relabelled text move) (production inner head .classDecl)
      (production inner head' .classDecl) := by
  refine (agrees_take .identifier (.refl _)).bind fun name name' hname => ?_
  refine (h.block "class").map fun body body' hbody => ?_
  rw [Relabelled, Node.relabel, lexeme_of_identifier hname.1 hname.2, hbody, hhead.place,
    Node.relabelAll_eq_map]

theorem agrees_alloc (h : InnerAgrees text words move inner)
    (hhead : head.Matches text words move head') :
    Agrees text words move (Relabelled text move) (production inner head .alloc)
      (production inner head' .alloc) := by
  refine (agrees_take .identifier (.refl _)).bind fun name name' hname => ?_
  refine (agrees_parenthesised h _ _).bind fun size size' hsize => agrees_closing _ _ ?_
  rw [Relabelled, Node.relabel, lexeme_of_identifier hname.1 hname.2, hsize, hhead.place]

theorem agrees_free (hhead : head.Matches text words move head') :
    Agrees text words move (Relabelled text move) (production inner head .free)
      (production inner head' .free) := by
  refine (agrees_take .identifier (.refl _)).bind fun name name' hname => agrees_closing _ _ ?_
  rw [Relabelled, Node.relabel, lexeme_of_identifier hname.1 hname.2, hhead.place]

theorem agrees_start (h : InnerAgrees text words move inner)
    (hhead : head.Matches text words move head') :
    Agrees text words move (Relabelled text move) (production inner head .start)
      (production inner head' .start) := by
  refine (h.block "Start").bind fun body body' hbody => ?_
  refine (agrees_take _ (.refl _)).bind fun _ _ _ => agrees_closing _ _ ?_
  rw [Relabelled, Node.relabel, hbody, hhead.place, Node.relabelAll_eq_map]

/-- **Every production agrees with itself** behind heads that match. -/
theorem agrees_production (h : InnerAgrees text words move inner)
    (hhead : head.Matches text words move head')
    {form : StatementForm} (hkind : form.kind = head.kind) :
    Agrees text words move (Relabelled text move) (production inner head form)
      (production inner head' form) := by
  cases form with
  | init => exact agrees_initBody h hhead
  | assignment => exact agrees_assignment h hhead hkind.symm
  | ifElse => exact agrees_ifElse h hhead
  | forLoop => exact agrees_forLoop h hhead
  | whileLoop => exact agrees_whileLoop h hhead
  | tryCatch => exact agrees_tryCatch h hhead
  | macroRegion => exact agrees_macroRegion hhead
  | function => exact agrees_function h hhead
  | matchWith => exact agrees_matchWith h hhead
  | structDecl => exact agrees_structDecl hhead
  | classDecl => exact agrees_classDecl h hhead
  | alloc => exact agrees_alloc h hhead
  | free => exact agrees_free hhead
  | start => exact agrees_start h hhead
  | loop | repeatLoop | async | mutex =>
    exact agrees_blockBody h _ (fun _ _ => by rw [Node.relabel, Node.relabelAll_eq_map]) hhead
  | returnStmt | breakStmt | continueStmt =>
    exact agrees_bareBody _ (fun _ => by rw [Node.relabel]) hhead
  | await | throw => exact agrees_valueBody h _ (fun _ _ => by rw [Node.relabel]) hhead

/-! ## Statements of any form -/

/-- What is expected instead of a token is the same up to the words of tokens that match. -/
theorem requoted_noStatement (h : head.Matches text words move head') :
    (noStatement head).Requoted words (noStatement head') := by
  unfold noStatement
  rw [h.kind]
  split
  next hkind =>
    obtain ⟨word, hword⟩ := Kind.isKeyword_iff.1 hkind
    exact .statementNotWord (h.word (by rw [hword]; rfl))
  next => exact .refl _

theorem agrees_statementWith (h : InnerAgrees text words move inner) :
    Agrees text words move (Relabelled text move) (statementWith inner) (statementWith inner) where
  alike haligned := by
    cases haligned with
    | nil => exact .error (.refl _) .nil
    | @cons token token' rest rest' hmatch hrest =>
      rw [read_statementWith_cons, read_statementWith_cons, hmatch.kind]
      split
      next form hform =>
        have hkind := StatementForm.ofKind?_eq_some_iff.1 hform
        exact (agrees_production h hmatch hkind).alike hrest
      next => exact .error (requoted_noStatement hmatch) (.cons hmatch hrest)

end Production

theorem agrees_blockWith {body : Expectation → Parser (List Node)} (construct : String)
    (h : ∀ missing,
      Agrees text words move (RelabelledAll text move) (body missing) (body missing)) :
    Agrees text words move (RelabelledAll text move) (blockWith body construct)
      (blockWith body construct) :=
  Agrees.bind (agrees_take _ (.refl _)) fun _ _ _ => h _

/-- **Statements are read alike**, by induction on the room. -/
theorem agrees_statement :
    ∀ room, Agrees text words move (Relabelled text move) (statement room) (statement room)
  | 0 => by
    rw [statement_eq]
    exact agrees_statementWith ⟨agrees_expression 0, fun construct =>
      agrees_blockWith construct fun _ => agrees_fail (.refl _)⟩
  | room + 1 => by
    rw [statement_eq]
    exact agrees_statementWith ⟨agrees_expression _, fun construct =>
      agrees_blockWith construct fun _ => (agrees_statement room).manyUntil⟩

/-- **All statements of a list are read alike**, by induction on what is left. -/
theorem statements_aligned {p : Parser Node} (h : Agrees text words move (Relabelled text move) p p)
    {tokens others : List Token} (haligned : Aligned text words move tokens others) :
    (∃ nodes, statements p tokens = .ok nodes ∧
      statements p others = .ok (nodes.map (Node.relabel text move))) ∨
    ∃ failure failure', statements p tokens = .error failure ∧
      statements p others = .error failure' ∧
      failure.expected.Requoted words failure'.expected ∧
      Aligned text words move failure.remaining failure'.remaining := by
  cases haligned with
  | nil => exact .inl ⟨[], statements_nil p, statements_nil p⟩
  | @cons token token' rest rest' hmatch hrest =>
    rw [statements_cons, statements_cons]
    rcases h.cases (.cons hmatch hrest) with
      ⟨node, node', behind, behind', hread, hread', rfl, hbehind⟩ |
      ⟨e, e', behind, behind', hread, hread', he, hbehind⟩
    · have hless := length_read hread
      rw [hread, hread']
      rcases statements_aligned h hbehind with ⟨nodes, hnodes, hnodes'⟩ |
        ⟨failure, failure', hfailure, hfailure', he, hremaining⟩
      · exact .inl ⟨node :: nodes, by simp only [hnodes]; rfl, by simp only [hnodes']; rfl⟩
      · exact .inr ⟨failure, failure', by simp only [hfailure]; rfl, by simp only [hfailure']; rfl,
          he, hremaining⟩
    · rw [hread, hread']
      exact .inr ⟨_, _, rfl, rfl, he, hbehind⟩
termination_by tokens.length
decreasing_by exact hless

end Parser

/-! ## Programs -/

section Program

variable {text : String → String} {words : String → String → Prop} {move : Location → Location}
variable {tokens others : List Token}

/-- Lists that match end alike. -/
theorem body_aligned (h : Aligned text words move tokens others) :
    Aligned text words move (TokenList.of tokens).body (TokenList.of others).body := by
  induction h with
  | nil => exact .nil
  | @cons token token' _ _ hmatch _ ih =>
    simp only [TokenList.of, List.takeWhile_cons, hmatch.kind]
    cases token.kind != .finish with
    | true => exact .cons hmatch ih
    | false => exact .nil

/-- **Programs are read alike from lists that match**: to trees that are relabelled, or to
rejections at the same index. -/
theorem parseProgram_aligned (h : Aligned text words move tokens others) :
    (∃ body, parseProgram tokens = .ok (programOf body) ∧
      parseProgram others = .ok (programOf (body.map (Node.relabel text move)))) ∨
    ∃ rejection rejection', parseProgram tokens = .error rejection ∧
      parseProgram others = .error rejection' ∧
      rejection.expected.Requoted words rejection'.expected ∧
      stopIndex tokens = stopIndex others := by
  have hbody := body_aligned h
  rcases Parser.statements_aligned (Parser.agrees_statement nestingLimit) hbody with
    ⟨nodes, hnodes, hnodes'⟩ | ⟨failure, failure', hfailure, hfailure', he, hremaining⟩
  · refine .inl ⟨nodes, ?_, ?_⟩
    · rw [parseProgram, parseWithin, hnodes]
    · rw [parseProgram, parseWithin, hnodes']
  · refine .inr ⟨_, _, rejection_of_body _ hfailure, rejection_of_body _ hfailure', he, ?_⟩
    simp only [stopIndex, parseWithin, hfailure, hfailure', TokenList.consumed, List.length_take,
      hbody.length_eq, hremaining.length_eq]

/-- In a list with an end, the offending token stands where the parser has stopped. -/
theorem getElem?_stopIndex {rejection : Rejection} (h : parseProgram tokens = .error rejection)
    (hfinish : ∃ token ∈ tokens, token.kind = .finish) :
    tokens[stopIndex tokens]? = some rejection.token := by
  have hle : stopIndex tokens ≤ (TokenList.of tokens).body.length := by
    obtain ⟨failure, hread, -⟩ := parseProgram_eq_error_iff.1 h
    simp only [stopIndex, hread, TokenList.consumed, List.length_take]
    exact Nat.min_le_right _ _
  have hlt : (TokenList.of tokens).body.length < tokens.length := by
    rcases eq_body_or_stop tokens with ⟨hall, -⟩ | ⟨-, rest, hall⟩
    · obtain ⟨token, hmem, hkind⟩ := hfinish
      exact absurd hkind (endFree_body tokens token (hall ▸ hmem))
    · conv_rhs => rw [hall]
      simp
  have hoffending := getElem?_rejected h
  rwa [List.getElem?_append_left (Nat.lt_of_le_of_lt hle hlt)] at hoffending

end Program

/-! ## Tokens without their places -/

/-- What of a token may come into a tree: its kind, its lexeme if it is a name, and no place. -/
def Token.essence (token : Token) : Token :=
  ⟨token.kind, if token.kind.isNamed then token.lexeme else "", .unplaced⟩

theorem matches_essence (token : Token) :
    token.Matches id (fun _ _ => True) (fun _ => .unplaced) token.essence where
  kind := rfl
  place := rfl
  content hnamed := by simp [Token.content, Token.essence, hnamed]
  word _ := trivial

theorem aligned_essence (tokens : List Token) :
    Aligned id (fun _ _ => True) (fun _ => .unplaced) tokens (tokens.map Token.essence) :=
  List.forall₂_map_right_iff.2 (List.forall₂_same.2 fun token _ => matches_essence token)

/-- **Two texts are read alike**, each with its vocabulary: either both are programs, with trees
that are equal up to places, or both are rejected, at tokens with the same index. -/
inductive ReadAlike (vocabulary vocabulary' : Vocabulary) (text text' : String) : Prop where
  | accepted {tree tree' : Node} :
    parseText vocabulary text = .ok tree → parseText vocabulary' text' = .ok tree' →
    tree.unplaced = tree'.unplaced → ReadAlike vocabulary vocabulary' text text'
  | rejected {rejection rejection' : Rejection} {i : Nat} :
    parseText vocabulary text = .error rejection → parseText vocabulary' text' = .error rejection' →
    rejection.expected.unquoted = rejection'.expected.unquoted →
    (tokens vocabulary text)[i]? = some rejection.token →
    (tokens vocabulary' text')[i]? = some rejection'.token →
    ReadAlike vocabulary vocabulary' text text'

/-- **Nothing but the essence of the tokens matters.** -/
theorem readAlike_of_essence {vocabulary vocabulary' : Vocabulary} {text text' : String}
    (hfinish : ∃ token ∈ tokens vocabulary text, token.kind = .finish)
    (hfinish' : ∃ token ∈ tokens vocabulary' text', token.kind = .finish)
    (h : (tokens vocabulary text).map Token.essence =
      (tokens vocabulary' text').map Token.essence) :
    ReadAlike vocabulary vocabulary' text text' := by
  have hread := parseProgram_aligned (aligned_essence (tokens vocabulary text))
  have hread' := parseProgram_aligned (aligned_essence (tokens vocabulary' text'))
  rw [h] at hread
  rcases hread with ⟨body, hbody, hcommon⟩ | ⟨rejection, common, hrejection, hcommon, he, hindex⟩
  · rcases hread' with ⟨body', hbody', hcommon'⟩ | ⟨_, _, _, hcommon', _⟩
    · refine .accepted hbody hbody' ?_
      obtain ⟨hequal, -⟩ := Node.program.inj (Except.ok.inj (hcommon.symm.trans hcommon'))
      simp only [Node.unplaced, programOf, Node.relabel, Node.relabelAll_eq_map, hequal]
    · simp [hcommon] at hcommon'
  · rcases hread' with ⟨_, _, hcommon'⟩ | ⟨rejection', common', hrejection', hcommon', he', hindex'⟩
    · simp [hcommon] at hcommon'
    · obtain rfl := Except.error.inj (hcommon.symm.trans hcommon')
      refine .rejected hrejection hrejection' (he.unquoted.trans he'.unquoted.symm)
        (getElem?_stopIndex hrejection hfinish) ?_
      rw [hindex.trans hindex'.symm]
      exact getElem?_stopIndex hrejection' hfinish'

end ScriptFrontend
