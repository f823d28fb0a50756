import ScriptFrontend.Parse.Program
import ScriptFrontend.Proofs.Parse.Statement

/-!
# Proofs/Parse/Program — programs are exactly what the grammar derives

`statements p` repeats a parser up to the end of a list.  Where `p` is tied to the statements of the
grammar, so is the repetition: what it reads is derivable (`sound_statements`), what is derivable is
read unless there is too little room (`complete_statements`), and what is in front of an offending
token can be completed (`viable_statements`).

Room is used up by one token at least for each unit (`deep_statements`).  So with as much room as
there are tokens **the parser decides the grammar** (`statements_eq_ok_iff`), whose trees are unique
for that reason.
-/

namespace ScriptFrontend

open Grammar

namespace Parser

variable {p : Parser Node} {room : Nat}

/-! ## The loop over the statements of a list -/

/-- What has been read is put in front. -/
theorem statements_go (p : Parser Node) : ∀ (tokens : List Token) (read : List Node),
    statements.go p read tokens = (statements p tokens).map (read.reverse ++ ·)
  | [], read => by simp [statements, statements.go, Except.map]
  | token :: rest, read => by
    rw [statements, statements.go, statements.go]
    rcases h : p.run (token :: rest) with ⟨node, behind, shorter⟩ | failure
    · simp only
      rw [statements_go p behind (node :: read), statements_go p behind [node]]
      cases statements p behind <;> simp [Except.map]
    · rfl
termination_by tokens => tokens.length
decreasing_by all_goals exact shorter

@[simp] theorem statements_nil (p : Parser Node) : statements p [] = .ok [] := by
  simp [statements, statements.go]

/-- A statement, and then the other ones. -/
theorem statements_cons (p : Parser Node) (token : Token) (rest : List Token) :
    statements p (token :: rest) =
      match p.read (token :: rest) with
      | (.ok node, behind) => (statements p behind).map (node :: ·)
      | (.error e, left) => .error ⟨e, left⟩ := by
  rw [statements, statements.go, read]
  rcases p.run (token :: rest) with ⟨node, behind, shorter⟩ | failure
  · exact statements_go p behind [node]
  · rfl

/-- A failure of the loop is one of its first statement or of the loop behind it. -/
theorem statements_cons_error {token : Token} {rest : List Token} {failure : Failure}
    (h : statements p (token :: rest) = .error failure) :
    p.read (token :: rest) = (.error failure.expected, failure.remaining) ∨
      ∃ node behind, p.read (token :: rest) = (.ok node, behind) ∧
        statements p behind = .error failure := by
  rw [statements_cons] at h
  rcases hread : p.read (token :: rest) with ⟨e | node, behind⟩
  · rw [hread] at h
    obtain rfl : ⟨e, behind⟩ = failure := by simpa using h
    exact .inl rfl
  · rw [hread] at h
    refine .inr ⟨node, behind, rfl, ?_⟩
    rcases hbehind : statements p behind with other | nodes
    · simpa [hbehind, Except.map] using h
    · simp [hbehind, Except.map] at h

/-! ## Derivations

All four are followed by induction on what is left, or on the derivation. -/

theorem sound_statements (h : Reads p room anyStatement elseFollows) :
    ∀ (tokens : List Token) {nodes : List Node}, statements p tokens = .ok nodes →
      Statements Statement tokens nodes
  | [], nodes, hread => by
    obtain rfl : [] = nodes := by simpa using hread
    exact .nil
  | token :: rest, nodes, hread => by
    rw [statements_cons] at hread
    rcases hfirst : p.read (token :: rest) with ⟨e | node, behind⟩
    · simp [hfirst] at hread
    · rw [hfirst] at hread
      rcases hbehind : statements p behind with failure | others
      · simp [hbehind, Except.map] at hread
      · obtain rfl : node :: others = nodes := by simpa [hbehind, Except.map] using hread
        obtain ⟨word, ⟨form, hform⟩, hsplit⟩ := h.sound hfirst
        rw [hsplit]
        exact .cons hform (sound_statements h behind hbehind)
termination_by tokens => tokens.length
decreasing_by exact length_read hfirst

/-- No statement starts with the word that starts the second body of an `if`. -/
theorem stops_statements {tokens : List Token} {nodes : List Node}
    (h : Statements Statement tokens nodes) : Stops elseFollows tokens := by
  rcases h with _ | ⟨hform, _⟩
  · exact stops_nil _
  · refine StartsWith.stops ((anyStatement_startsWith ⟨_, hform⟩).imp ?_) _
    rintro _ ⟨form, rfl⟩
    cases form <;> simp [StatementForm.kind, elseFollows]

theorem complete_statements (h : Reads p room anyStatement elseFollows) {tokens : List Token}
    {nodes : List Node} (hstatements : Statements Statement tokens nodes) :
    statements p tokens = .ok nodes ∨ ∃ left, statements p tokens = .error ⟨.shallower, left⟩ := by
  induction hstatements with
  | nil => exact .inl (statements_nil p)
  | @cons form front back node nodes hform hback ih =>
    have hread := h.complete ⟨form, hform⟩ (stops_statements hback)
    obtain ⟨head, tail, rfl, -⟩ := hform.startsWith
    unfold Gives at hread
    rw [List.cons_append] at hread ⊢
    rw [statements_cons]
    rcases hread with hread | ⟨left, hread⟩
    · rw [hread]
      rcases ih with ih | ⟨left, ih⟩
      · exact .inl (by simp [ih, Except.map])
      · exact .inr ⟨left, by simp [ih, Except.map]⟩
    · exact .inr ⟨left, by rw [hread]⟩

/-- **What is in front of an offending token can be completed.** -/
theorem viable_statements (h : Reads p room anyStatement elseFollows) :
    ∀ (tokens : List Token) {failure : Failure}, statements p tokens = .error failure →
      failure.expected ≠ .shallower →
      ∃ front, Language.Viable (Statements Statement) front ∧ tokens = front ++ failure.remaining
  | [], failure, hread, _ => by simp at hread
  | token :: rest, failure, hread, hne => by
    rcases statements_cons_error hread with hfirst | ⟨node, behind, hfirst, hbehind⟩
    · obtain ⟨front, ⟨back, node, ⟨form, hform⟩, hfree⟩, hsplit⟩ := h.viable hfirst hne
      have hone : Statements Statement (front ++ back) [node] := by
        simpa using Statements.cons hform .nil
      exact ⟨front, ⟨back, [node], hone, hfree⟩, hsplit⟩
    · obtain ⟨word, ⟨form, hform⟩, hsplit⟩ := h.sound hfirst
      obtain ⟨front, ⟨back, nodes, hnodes, hfree⟩, rfl⟩ := viable_statements h behind hbehind hne
      refine ⟨word ++ front, ⟨back, node :: nodes, ?_, hfree⟩, by simpa using hsplit⟩
      rw [List.append_assoc]
      exact .cons hform hnodes
termination_by tokens => tokens.length
decreasing_by exact length_read hfirst

/-! ## What the loop can see, and its room -/

/-- **A failure is final once the offending token is there**: what is behind it does not matter. -/
theorem ahead_statements (h : Local p room) :
    ∀ (tokens : List Token) {failure : Failure}, statements p tokens = .error failure →
      ∃ front, tokens = front ++ failure.remaining ∧
        ∀ other, other.head? = failure.remaining.head? →
          statements p (front ++ other) = .error ⟨failure.expected, other⟩
  | [], failure, hread => by simp at hread
  | token :: rest, failure, hread => by
    have first {front other : List Token} (h : (front ++ other).head? = some token) :
        ∃ tail, front ++ other = token :: tail := List.head?_eq_some_iff.1 h
    rcases statements_cons_error hread with hfirst | ⟨node, behind, hfirst, hbehind⟩
    · obtain ⟨front, hsplit, hfront⟩ := h.ahead hfirst
      refine ⟨front, hsplit, fun other hother => ?_⟩
      obtain ⟨tail, htail⟩ := first ((head?_append_congr _ hother).trans (by rw [← hsplit]; rfl))
      rw [htail, statements_cons, ← htail, hfront other hother]
    · obtain ⟨front, hsplit, hfront⟩ := h.ahead hfirst
      obtain ⟨middle, rfl, hmiddle⟩ := ahead_statements h behind hbehind
      refine ⟨front ++ middle, by simpa using hsplit, fun other hother => ?_⟩
      have hhead := head?_append_congr middle hother
      obtain ⟨tail, htail⟩ := first ((head?_append_congr _ hhead).trans (by rw [← hsplit]; rfl))
      rw [List.append_assoc, htail, statements_cons, ← htail, hfront _ hhead]
      simp [hmiddle other hother, Except.map]
termination_by tokens => tokens.length
decreasing_by exact length_read hfirst

theorem deep_statements (h : Local p room) :
    ∀ (tokens : List Token) {left : List Token},
      statements p tokens = .error ⟨.shallower, left⟩ → left.length + room ≤ tokens.length
  | [], left, hread => by simp at hread
  | token :: rest, left, hread => by
    rcases statements_cons_error hread with hfirst | ⟨node, behind, hfirst, hbehind⟩
    · exact h.deep hfirst
    · have hleft := deep_statements h behind hbehind
      have hshorter := length_read hfirst
      omega
termination_by tokens => tokens.length
decreasing_by exact length_read hfirst

/-- **With as much room as there are tokens, the parser decides the grammar.** -/
theorem statements_eq_ok_iff {tokens : List Token} {nodes : List Node}
    (hroom : tokens.length ≤ room) :
    statements (statement room) tokens = .ok nodes ↔ Statements Statement tokens nodes := by
  refine ⟨sound_statements (reads_statement room) tokens, fun h => ?_⟩
  rcases complete_statements (reads_statement room) h with hok | ⟨left, hleft⟩
  · exact hok
  · have := deep_statements (reads_statement room).toLocal tokens hleft
    omega

end Parser

/-! ## Programs -/

/-- Short lists are never nested too deeply. -/
theorem nestingLimit_lt_length {tokens : List Token} {rejection : Rejection}
    (h : parseProgram tokens = .error rejection) (hshallower : rejection.expected = .shallower) :
    nestingLimit < tokens.length := by
  rw [parseProgram] at h
  rcases hwithin : parseWithin nestingLimit tokens with ⟨e, left⟩ | nodes
  · rw [hwithin] at h
    obtain rfl := Except.error.inj h
    obtain rfl : e = .shallower := hshallower
    have hbody := Parser.deep_statements (Parser.reads_statement nestingLimit).toLocal _ hwithin
    have hle : (TokenList.of tokens).body.length ≤ tokens.length :=
      (List.takeWhile_sublist _).length_le
    omega
  · simp [hwithin] at h

theorem parseProgram_eq_ok_iff {tokens : List Token} {tree : Node} :
    parseProgram tokens = .ok tree ↔
      ∃ nodes, parseWithin nestingLimit tokens = .ok nodes ∧ programOf nodes = tree := by
  rw [parseProgram]
  cases parseWithin nestingLimit tokens <;> simp

/-- **A list of tokens spells a program exactly if the grammar derives it**, with the same tree,
unless it is nested too deeply; and the grammar derives at most one tree. -/
theorem parseProgram_decides_grammar :
    (∀ tokens : List Token,
      (∀ rejection, parseProgram tokens = .error rejection → rejection.expected ≠ .shallower) →
      ∀ tree, parseProgram tokens = .ok tree ↔
        Program (tokens.takeWhile (·.kind != .finish)) tree) ∧
    ∀ (tokens : List Token) (tree other : Node),
      Program tokens tree → Program tokens other → tree = other := by
  refine ⟨fun tokens hdeep tree => parseProgram_eq_ok_iff.trans ⟨?_, ?_⟩, ?_⟩
  · rintro ⟨nodes, hnodes, rfl⟩
    exact ⟨nodes, Parser.sound_statements (Parser.reads_statement _) _ hnodes, rfl⟩
  · rintro ⟨nodes, hnodes, rfl⟩
    refine ⟨nodes, ?_, rfl⟩
    rcases Parser.complete_statements (Parser.reads_statement nestingLimit) hnodes with
      hok | ⟨left, hleft⟩
    · exact hok
    · have herror : parseProgram tokens =
          .error ((TokenList.of tokens).rejection ⟨.shallower, left⟩) := by
        rw [parseProgram, parseWithin, TokenList.of, hleft]
      exact absurd rfl (hdeep _ herror)
  · rintro tokens _ _ ⟨nodes, hnodes, rfl⟩ ⟨others, hothers, rfl⟩
    have hread := (Parser.statements_eq_ok_iff (Nat.le_refl _)).2 hnodes
    have hread' := (Parser.statements_eq_ok_iff (Nat.le_refl _)).2 hothers
    obtain rfl : nodes = others := Except.ok.inj (hread.symm.trans hread')
    rfl

/-- The tokens of `if (-a < 2 * b) { Break; } else { }`, with a token behind their end. -/
def branching : List Token := [
  ⟨.keyword .ifWord, "if", ⟨1, 1⟩⟩, ⟨.mark .leftParen, "(", ⟨1, 4⟩⟩,
  ⟨.operator .minus, "-", ⟨1, 5⟩⟩, ⟨.identifier, "a", ⟨1, 6⟩⟩, ⟨.operator .less, "<", ⟨1, 8⟩⟩,
  ⟨.number, "2", ⟨1, 10⟩⟩, ⟨.operator .times, "*", ⟨1, 12⟩⟩, ⟨.identifier, "b", ⟨1, 14⟩⟩,
  ⟨.mark .rightParen, ")", ⟨1, 15⟩⟩, ⟨.mark .leftBrace, "\x7b", ⟨1, 17⟩⟩,
  ⟨.keyword .breakWord, "Break", ⟨1, 19⟩⟩, ⟨.mark .semicolon, ";", ⟨1, 24⟩⟩,
  ⟨.mark .rightBrace, "\x7d", ⟨1, 26⟩⟩, ⟨.keyword .elseWord, "else", ⟨1, 28⟩⟩,
  ⟨.mark .leftBrace, "\x7b", ⟨1, 33⟩⟩, ⟨.mark .rightBrace, "\x7d", ⟨1, 35⟩⟩,
  .finish ⟨1, 36⟩, ⟨.mark .comma, ",", ⟨1, 36⟩⟩]

theorem parseProgram_branching :
    (∀ rejection, parseProgram branching = .error rejection → rejection.expected ≠ .shallower) ∧
    parseProgram branching = .ok (.program [.ifElse
      (.binary (.unary "-" (.identifier "a" ⟨1, 6⟩) ⟨1, 5⟩) "<"
        (.binary (.literal "2" "int" ⟨1, 10⟩) "*" (.identifier "b" ⟨1, 14⟩) ⟨1, 12⟩) ⟨1, 8⟩)
      [.breakStmt ⟨1, 19⟩] (some []) ⟨1, 1⟩] ⟨1, 1⟩) := by
  have hdeep : ∀ rejection, parseProgram branching = .error rejection →
      rejection.expected ≠ .shallower := fun rejection h hshallower => by
    have := nestingLimit_lt_length h hshallower
    simp [branching, nestingLimit] at this
  refine ⟨hdeep, (parseProgram_decides_grammar.1 branching hdeep _).2 ⟨_, ?_, rfl⟩⟩
  have hleft : Expression (.level .term)
      [⟨.operator .minus, "-", ⟨1, 5⟩⟩, ⟨.identifier, "a", ⟨1, 6⟩⟩] _ :=
    .operand (.operand (.unary (.inr rfl) (.primary (.identifier rfl))))
  have hright : Expression (.level .factor)
      ([⟨.number, "2", ⟨1, 10⟩⟩] ++ ⟨.operator .times, "*", ⟨1, 12⟩⟩ ::
        [⟨.identifier, "b", ⟨1, 14⟩⟩]) _ :=
    .binary (.operand (.primary (.number rfl))) rfl (by decide) (.primary (.identifier rfl))
  have hcondition : Expr (_ ++ ⟨.operator .less, "<", ⟨1, 8⟩⟩ :: _) _ :=
    .operand (.binary (.operand hleft) rfl (by decide) (.operand hright))
  have hbreak : Statement .breakStmt [⟨.keyword .breakWord, "Break", ⟨1, 19⟩⟩,
      ⟨.mark .semicolon, ";", ⟨1, 24⟩⟩] _ := .breakStmt rfl rfl
  have hbody : Block Statement (⟨.mark .leftBrace, "\x7b", ⟨1, 17⟩⟩ ::
      (_ ++ [⟨.mark .rightBrace, "\x7d", ⟨1, 26⟩⟩])) _ := .braces rfl (.cons hbreak .nil) rfl
  have helse : Block Statement (⟨.mark .leftBrace, "\x7b", ⟨1, 33⟩⟩ ::
      ([] ++ [⟨.mark .rightBrace, "\x7d", ⟨1, 35⟩⟩])) _ := .braces rfl .nil rfl
  have hif : Statement .ifElse (⟨.keyword .ifWord, "if", ⟨1, 1⟩⟩ ::
      ⟨.mark .leftParen, "(", ⟨1, 4⟩⟩ :: (_ ++ ⟨.mark .rightParen, ")", ⟨1, 15⟩⟩ ::
      (_ ++ ⟨.keyword .elseWord, "else", ⟨1, 28⟩⟩ :: _))) _ :=
    .ifElseElse rfl rfl hcondition rfl hbody rfl helse
  exact Statements.cons hif .nil

end ScriptFrontend
