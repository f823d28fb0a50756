import ScriptFrontend.Proofs.Parse.Prefix
import ScriptFrontend.Proofs.Parse.Room

/-!
# Proofs/Parse/Concat — a program and what is written behind it

Nothing of a statement looks behind its last token, but for `if`, which looks for `else`.  So a
program in front of other tokens is read as it is alone, and the other tokens are read as they are
alone (`parseProgram_append`).

The two readings of a statement differ in what is behind its last token: the end in one, a token in
the other.  With enough room the statement is read all the same, since the grammar derives it.  With
less room, the parser could only run out of it, and then in front of the last token of the
statement, where both readings see the same.
-/

namespace ScriptFrontend

open Grammar

namespace Parser

variable {room : Nat} {front back rest : List Token}

/-- With the end behind it a statement is read as it is with other tokens behind it. -/
theorem read_statement_append_end {node : Node}
    (h : (statement room).read front = (.ok node, []))
    (hback : ∀ token ∈ back.head?, token.kind ≠ .keyword .elseWord) :
    (statement room).read (front ++ back) = (.ok node, back) := by
  have hlocal := (reads_statement room).toLocal
  -- so much room is never run out of
  let enough := room + (front ++ back).length
  have hfull : (statement enough).read (front ++ back) = (.ok node, back) := by
    obtain ⟨word, hword, hfront⟩ := (reads_statement room).sound h
    obtain rfl : word = front := by rw [hfront, List.append_nil]
    rcases (reads_statement enough).complete hword hback with hok | ⟨left, hleft⟩
    · exact hok
    · have hdeep := (reads_statement enough).deep hleft
      simp only [enough] at hdeep
      omega
  rcases (restricts_statement (Nat.le_add_right room _)).cases (front ++ back) with
    heq | ⟨left, hleft, hpast⟩
  · exact heq.trans hfull
  · have hlonger : back.length < left.length := hpast node back hfull
    obtain ⟨seen, hseen, hahead⟩ := hlocal.ahead hleft
    obtain ⟨unseen, rfl⟩ : back <:+ left :=
      List.suffix_of_suffix_length_le (List.suffix_append front back) ⟨seen, hseen.symm⟩
        (Nat.le_of_lt hlonger)
    rw [← List.append_assoc] at hseen
    obtain rfl := List.append_cancel_right hseen
    have hne : unseen ≠ [] := by
      rintro rfl
      simp at hlonger
    have hshallow := hahead unseen (List.head?_append_of_ne_nil _ hne).symm
    simp [hshallow] at h

/-- **A statement is read as it is with other tokens behind what it leaves.** -/
theorem read_statement_append {node : Node}
    (h : (statement room).read front = (.ok node, rest))
    (hback : ∀ token ∈ back.head?, token.kind ≠ .keyword .elseWord) :
    (statement room).read (front ++ back) = (.ok node, rest ++ back) := by
  rcases rest with _ | ⟨token, rest⟩
  · exact read_statement_append_end h hback
  · obtain ⟨seen, rfl, hahead⟩ := (reads_statement room).toLocal.ahead h
    rw [List.append_assoc]
    exact hahead _ rfl

/-- **Statements in front of other tokens**, by induction on what is left of them. -/
theorem statements_append (hback : ∀ token ∈ back.head?, token.kind ≠ .keyword .elseWord) :
    ∀ (front : List Token) {nodes : List Node},
      statements (statement room) front = .ok nodes →
      statements (statement room) (front ++ back) =
        (statements (statement room) back).map (nodes ++ ·)
  | [], nodes, h => by
    obtain rfl : [] = nodes := by simpa using h
    rw [List.nil_append]
    cases statements (statement room) back <;> rfl
  | token :: tail, nodes, h => by
    rw [statements_cons] at h
    rcases hread : (statement room).read (token :: tail) with ⟨e | node, behind⟩
    · simp [hread] at h
    · rw [hread] at h
      rcases hbehind : statements (statement room) behind with failure | others
      · simp [hbehind, Except.map] at h
      · obtain rfl : node :: others = nodes := by simpa [hbehind, Except.map] using h
        have hfirst := read_statement_append hread hback
        rw [List.cons_append] at hfirst ⊢
        rw [statements_cons, hfirst]
        simp only
        rw [statements_append hback behind hbehind]
        cases statements (statement room) back <;> rfl
termination_by front => front.length
decreasing_by exact length_read hread

end Parser

/-! ## Programs -/

variable {front back : List Token}

/-- The token that ends a list is that of its last part. -/
theorem stop_append (hfree : EndFree front) (hback : back ≠ []) :
    (TokenList.of (front ++ back)).stop = (TokenList.of back).stop := by
  have hpass : ∀ token ∈ front, (token.kind != .finish) = true := fun token hmem => by
    simpa using hfree token hmem
  simp only [TokenList.of, impliedStop, List.dropWhile_append_of_pos hpass]
  rw [List.getLast?_append_of_ne_nil _ hback]

/-- The body of a list starts as the list does. -/
theorem head?_body {tokens : List Token} {token : Token}
    (h : token ∈ (TokenList.of tokens).body.head?) : token ∈ tokens.head? := by
  obtain ⟨rest, hrest⟩ := List.takeWhile_prefix (l := tokens) (·.kind != .finish)
  rw [← hrest, List.head?_append]
  exact Option.or_eq_some_iff.2 (.inl h)

/-- **A program and what is written behind it are read one after the other**: behind a program, a
list that does not start with `else` is a program if it is one alone, with its statements behind
those of the first one, and it is rejected as it is alone. -/
theorem parseProgram_append {nodes : List Node} (hfree : EndFree front)
    (hfront : parseProgram front = .ok (programOf nodes))
    (hback : ∀ token ∈ back.head?, token.kind ≠ .keyword .elseWord) :
    (∃ others, parseProgram back = .ok (programOf others) ∧
      parseProgram (front ++ back) = .ok (programOf (nodes ++ others))) ∨
    ∃ rejection, parseProgram back = .error rejection ∧
      parseProgram (front ++ back) = .error rejection := by
  obtain ⟨_, hread, hnodes⟩ := parseProgram_eq_ok_iff.1 hfront
  obtain ⟨rfl, -⟩ := Node.program.inj hnodes
  rw [parseWithin, body_of_endFree hfree] at hread
  have hall := Parser.statements_append
    (fun token (hmem : token ∈ (TokenList.of back).body.head?) => hback token (head?_body hmem))
    front hread
  rw [← body_append hfree] at hall
  rcases hrest : Parser.statements (.statement nestingLimit) (TokenList.of back).body with
    failure | others
  · rw [hrest] at hall
    have hne : back ≠ [] := by
      rintro rfl
      simp [TokenList.of] at hrest
    have hback := rejection_of_body back hrest
    have hboth := rejection_of_body (front ++ back) hall
    rw [TokenList.rejection, stop_append hfree hne] at hboth
    exact .inr ⟨_, hback, hboth⟩
  · rw [hrest] at hall
    exact .inl ⟨others, parseProgram_eq_ok_iff.2 ⟨others, hrest, rfl⟩,
      parseProgram_eq_ok_iff.2 ⟨_, hall, rfl⟩⟩

/-- The tokens of `if (a) { }`, where an `else` might follow. -/
def lastIf : List Token := [
  ⟨.keyword .ifWord, "if", ⟨1, 1⟩⟩, ⟨.mark .leftParen, "(", ⟨1, 4⟩⟩, ⟨.identifier, "a", ⟨1, 5⟩⟩,
  ⟨.mark .rightParen, ")", ⟨1, 6⟩⟩, ⟨.mark .leftBrace, "\x7b", ⟨1, 8⟩⟩,
  ⟨.mark .rightBrace, "\x7d", ⟨1, 10⟩⟩]

/-- The tokens of `Break; Return`, where a semicolon is missing. -/
def openReturn : List Token := [
  ⟨.keyword .breakWord, "Break", ⟨2, 1⟩⟩, ⟨.mark .semicolon, ";", ⟨2, 6⟩⟩,
  ⟨.keyword .returnWord, "Return", ⟨2, 8⟩⟩]

theorem parseProgram_lastIf_openReturn :
    EndFree lastIf ∧
    parseProgram lastIf =
      .ok (programOf [.ifElse (.identifier "a" ⟨1, 5⟩) [] none ⟨1, 1⟩]) ∧
    (∀ token ∈ openReturn.head?, token.kind ≠ .keyword .elseWord) ∧
    parseProgram (lastIf ++ openReturn) = .error ⟨.returnEnd, .finish ⟨2, 8⟩⟩ := by
  have hfree : EndFree lastIf := by simp [lastIf]
  have hlast : parseProgram lastIf =
      .ok (programOf [.ifElse (.identifier "a" ⟨1, 5⟩) [] none ⟨1, 1⟩]) := by cbv
  have hhead : ∀ token ∈ openReturn.head?, token.kind ≠ .keyword .elseWord := by
    simp [openReturn]
  have hopen : parseProgram openReturn = .error ⟨.returnEnd, .finish ⟨2, 8⟩⟩ := by cbv
  refine ⟨hfree, hlast, hhead, ?_⟩
  rcases parseProgram_append hfree hlast hhead with ⟨others, hok, -⟩ | ⟨rejection, herror, hboth⟩
  · simp [hopen] at hok
  · obtain rfl := Except.error.inj (hopen.symm.trans herror)
    exact hboth

end ScriptFrontend
