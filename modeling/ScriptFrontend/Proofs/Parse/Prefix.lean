import Mathlib
import ScriptFrontend.Parse.Macros
import ScriptFrontend.Proofs.Parse.Program

/-!
# Proofs/Parse/Prefix — a list is rejected at the first token that fits nothing

`stopIndex` counts the tokens that have been consumed when a list is rejected.  `EarliestMisfit`
says what this place is: what is in front of it can be completed to a sentence, and with the
offending token it cannot, whatever follows; where it is the end that offends, what is in front is
no sentence itself.

The first half is `viable_statements`.  For the second one, the parser would read any sentence that
starts in this way (`complete_statements`), and yet it fails on all of them (`ahead_statements`).
-/

namespace ScriptFrontend

open Grammar

/-! ## The tokens in front of the end -/

theorem endFree_body (tokens : List Token) : EndFree (TokenList.of tokens).body :=
  fun token hmem => by
    have h : (token.kind != .finish) = true := List.all_eq_true.1 List.all_takeWhile token hmem
    simpa using h

/-- In front of a list, tokens that end no text belong to its body. -/
theorem body_append {front : List Token} (hfree : EndFree front) (rest : List Token) :
    (TokenList.of (front ++ rest)).body = front ++ (TokenList.of rest).body :=
  List.takeWhile_append_of_pos fun token hmem => by simpa using hfree token hmem

theorem body_of_endFree {tokens : List Token} (hfree : EndFree tokens) :
    (TokenList.of tokens).body = tokens := by
  have h := body_append hfree []
  rw [List.append_nil] at h
  rw [h]
  exact List.append_nil _

/-- A list is its body, or its body is followed by the token that ends it. -/
theorem eq_body_or_stop (tokens : List Token) :
    tokens = (TokenList.of tokens).body ∧ (TokenList.of tokens).stop = impliedStop tokens ∨
    (TokenList.of tokens).stop.kind = .finish ∧
      ∃ rest, tokens = (TokenList.of tokens).body ++ (TokenList.of tokens).stop :: rest := by
  have hsplit := List.takeWhile_append_dropWhile (p := (·.kind != .finish)) (l := tokens)
  simp only [TokenList.of]
  rcases hdrop : tokens.dropWhile (·.kind != .finish) with _ | ⟨stop, rest⟩
  · rw [hdrop, List.append_nil] at hsplit
    exact .inl ⟨hsplit.symm, by rw [hdrop]; rfl⟩
  · have hstop := List.head?_dropWhile_not (fun token : Token => token.kind != .finish) tokens
    rw [hdrop] at hsplit hstop ⊢
    exact .inr ⟨by simpa using hstop, rest, hsplit.symm⟩

/-- What is rejected, and not for its depth, is no sentence. -/
theorem not_sentence_of_error {tokens : List Token} {room : Nat} {failure : Failure}
    (h : Parser.statements (.statement room) tokens = .error failure)
    (hne : failure.expected ≠ .shallower) : ¬ Sentence tokens := by
  rintro ⟨-, _, nodes, hnodes, -⟩
  rcases Parser.complete_statements (Parser.reads_statement room) hnodes with hok | ⟨left, hleft⟩
  · simp [hok] at h
  · obtain rfl := Except.error.inj (hleft.symm.trans h)
    exact hne rfl

/-- A sentence is read if there is room for it. -/
theorem parseWithin_of_sentence {tokens : List Token} (h : Sentence tokens) :
    ∃ room nodes, parseWithin room tokens = .ok nodes := by
  obtain ⟨hfree, _, nodes, hnodes, -⟩ := h
  refine ⟨tokens.length, nodes, ?_⟩
  rw [parseWithin, body_of_endFree hfree]
  exact (Parser.statements_eq_ok_iff (Nat.le_refl _)).2 hnodes

/-! ## The offending token -/

/-- How many tokens have been consumed where a list is rejected. -/
def stopIndex (tokens : List Token) : Nat :=
  match parseWithin nestingLimit tokens with
  | .ok _ => tokens.length
  | .error failure => ((TokenList.of tokens).consumed failure.remaining).length

/-- **The place of a rejection is the earliest one possible.** -/
structure EarliestMisfit (tokens : List Token) (rejection : Rejection) (i : Nat) : Prop where
  /-- The offending token is there, or implied behind the last token and at its place. -/
  offending : tokens[i]? = some rejection.token ∨
    i = tokens.length ∧
      ∃ last, tokens.getLast? = some last ∧ rejection.token = .finish last.place
  /-- What is in front can be completed. -/
  viable : ∃ w, Sentence (tokens.take i ++ w) ∧
    ∃ room nodes, parseWithin room (tokens.take i ++ w) = .ok nodes
  /-- With a real offending token it cannot, and the rejection is final. -/
  final : i < tokens.length → ∀ w, ¬ Sentence (tokens.take (i + 1) ++ w) ∧
    parseProgram (tokens.take (i + 1) ++ w) = .error rejection
  /-- Where the end offends, what is in front is not complete. -/
  incomplete : rejection.token.kind = .finish → ¬ Sentence (tokens.take i)
  /-- The message names the place of the offending token. -/
  message : rejection.message = rejection.expected.text ++ " at line " ++
    toString rejection.token.place.line ++ ", col " ++ toString rejection.token.place.column ++
    " (got " ++ rejection.token.kind.name ++ " " ++ quoted rejection.token.lexeme ++ ")"

theorem parseProgram_eq_error_iff {tokens : List Token} {rejection : Rejection} :
    parseProgram tokens = .error rejection ↔
      ∃ failure, parseWithin nestingLimit tokens = .error failure ∧
        (TokenList.of tokens).rejection failure = rejection := by
  rw [parseProgram]
  cases parseWithin nestingLimit tokens <;> simp

/-- What has been consumed is in front of what remains. -/
theorem consumed_append {list : TokenList} {front remaining : List Token}
    (h : list.body = front ++ remaining) : list.consumed remaining = front := by
  simp [TokenList.consumed, h]

theorem rejection_of_body (tokens : List Token) {failure : Failure}
    (h : Parser.statements (.statement nestingLimit) (TokenList.of tokens).body = .error failure) :
    parseProgram tokens = .error ((TokenList.of tokens).rejection failure) :=
  parseProgram_eq_error_iff.2 ⟨failure, h, rfl⟩

/-- A list and the end that is implied behind it start with the body and the token that ends it. -/
theorem append_impliedStop (tokens : List Token) :
    ∃ more, tokens ++ [impliedStop tokens] =
      (TokenList.of tokens).body ++ (TokenList.of tokens).stop :: more := by
  rcases eq_body_or_stop tokens with ⟨hall, hstop⟩ | ⟨-, rest, hall⟩
  · refine ⟨[], ?_⟩
    rw [← hall, hstop]
  · refine ⟨rest ++ [impliedStop tokens], ?_⟩
    rw [← List.cons_append, ← List.append_assoc, ← hall]

/-- **The offending token stands where the tokens left start**, the end that is implied behind a
list being one more token. -/
theorem getElem?_offending {tokens remaining : List Token} (e : Expectation)
    (h : remaining <:+ (TokenList.of tokens).body) :
    (tokens ++ [impliedStop tokens])[(TokenList.of tokens).body.length - remaining.length]? =
      some ((TokenList.of tokens).rejection ⟨e, remaining⟩).token := by
  obtain ⟨front, hbody⟩ := h
  obtain ⟨more, hall⟩ := append_impliedStop tokens
  rw [hall, ← hbody, List.length_append, Nat.add_sub_cancel, List.append_assoc,
    List.getElem?_append_right (Nat.le_refl _), Nat.sub_self]
  cases remaining <;> simp [TokenList.rejection]

/-- **The offending token stands where the parser has stopped**, the implied end being one more
token. -/
theorem getElem?_rejected {tokens : List Token} {rejection : Rejection}
    (h : parseProgram tokens = .error rejection) :
    (tokens ++ [impliedStop tokens])[stopIndex tokens]? = some rejection.token := by
  obtain ⟨failure, hread, rfl⟩ := parseProgram_eq_error_iff.1 h
  obtain ⟨front, hbody, -⟩ :=
    Parser.ahead_statements (Parser.reads_statement nestingLimit).toLocal _ hread
  have hindex :
      stopIndex tokens = (TokenList.of tokens).body.length - failure.remaining.length := by
    simp only [stopIndex, hread, consumed_append hbody]
    simp [hbody]
  rw [hindex]
  exact getElem?_offending failure.expected ⟨front, hbody.symm⟩

section Misfit

variable {front : List Token} {e : Expectation}

/-- With a token that the parser refuses there, the rejection is final. -/
theorem final_of_token {token : Token} (hfront : EndFree front) (htoken : token.kind ≠ .finish)
    (hne : e ≠ .shallower)
    (h : ∀ rest, Parser.statements (.statement nestingLimit) (front ++ token :: rest) =
      .error ⟨e, token :: rest⟩) (w : List Token) :
    ¬ Sentence (front ++ token :: w) ∧
      parseProgram (front ++ token :: w) = .error ⟨e, token⟩ := by
  refine ⟨not_sentence_of_error (h w) hne, ?_⟩
  have hbody : (TokenList.of (front ++ token :: w)).body = front ++ token :: (TokenList.of w).body := by
    rw [body_append hfront, ← List.singleton_append, body_append (by simpa using htoken)]
    rfl
  have hread := h (TokenList.of w).body
  rw [← hbody] at hread
  exact rejection_of_body _ hread

/-- With the end there, the rejection is final: no token behind it is looked at. -/
theorem final_of_end {stop : Token} (hfront : EndFree front) (hstop : stop.kind = .finish)
    (h : Parser.statements (.statement nestingLimit) front = .error ⟨e, []⟩) (w : List Token) :
    ¬ Sentence (front ++ stop :: w) ∧ parseProgram (front ++ stop :: w) = .error ⟨e, stop⟩ := by
  refine ⟨fun hsentence => hsentence.1 stop (by simp) hstop, ?_⟩
  have hlist : TokenList.of (front ++ stop :: w) = ⟨front, stop⟩ := by
    have hpass : ∀ token ∈ front, (token.kind != .finish) = true := fun token hmem => by
      simpa using hfront token hmem
    simp [TokenList.of, List.takeWhile_append_of_pos hpass, List.dropWhile_append_of_pos hpass,
      hstop]
  have hread := rejection_of_body (front ++ stop :: w) (by rw [hlist]; exact h)
  rwa [hlist] at hread

/-- A token of the list offends. -/
theorem EarliestMisfit.of_token {token : Token} {w : List Token} (hviable : Sentence (front ++ w))
    (hfinal : ∀ w, ¬ Sentence (front ++ token :: w) ∧
      parseProgram (front ++ token :: w) = .error ⟨e, token⟩)
    (hincomplete : token.kind = .finish → ¬ Sentence front) (after : List Token) :
    EarliestMisfit (front ++ token :: after) ⟨e, token⟩ front.length where
  offending := .inl (by simp)
  viable := by
    rw [List.take_left]
    exact ⟨w, hviable, parseWithin_of_sentence hviable⟩
  final _ w := by
    have htake : (front ++ token :: after).take (front.length + 1) = front ++ [token] := by
      rw [List.append_cons]
      exact List.take_left' (by simp)
    rw [htake, List.append_assoc]
    exact hfinal w
  incomplete hkind := by
    rw [List.take_left]
    exact hincomplete hkind
  message := rfl

/-- The end that is implied behind a list offends. -/
theorem EarliestMisfit.of_end {last : Token} {w : List Token} (hlast : front.getLast? = some last)
    (hviable : Sentence (front ++ w)) (hincomplete : ¬ Sentence front) :
    EarliestMisfit front ⟨e, .finish last.place⟩ front.length where
  offending := .inr ⟨rfl, last, hlast, rfl⟩
  viable := by
    rw [List.take_length]
    exact ⟨w, hviable, parseWithin_of_sentence hviable⟩
  final hlt := absurd hlt (Nat.lt_irrefl _)
  incomplete _ := by rwa [List.take_length]
  message := rfl

end Misfit

/-- **A list is rejected at the first token that fits nothing**, unless it is nested too deeply. -/
theorem parseProgram_earliestMisfit {tokens : List Token} {rejection : Rejection}
    (h : parseProgram tokens = .error rejection) (hne : rejection.expected ≠ .shallower) :
    EarliestMisfit tokens rejection (stopIndex tokens) := by
  obtain ⟨⟨e, remaining⟩, hread, rfl⟩ := parseProgram_eq_error_iff.1 h
  obtain ⟨front, ⟨w, nodes, hnodes, hw⟩, hbody⟩ :=
    Parser.viable_statements (Parser.reads_statement nestingLimit) _ hread hne
  obtain ⟨front', hbody', hahead⟩ :=
    Parser.ahead_statements (Parser.reads_statement nestingLimit).toLocal _ hread
  obtain rfl : front = front' := List.append_cancel_right (hbody.symm.trans hbody')
  obtain ⟨hfront, hremaining⟩ := endFree_append.1 (hbody ▸ endFree_body tokens)
  have hviable : Sentence (front ++ w) :=
    ⟨endFree_append.2 ⟨hfront, hw⟩, _, nodes, hnodes, rfl⟩
  have hindex : stopIndex tokens = front.length := by
    rw [stopIndex, hread]
    simp only [consumed_append hbody]
  rw [hindex, TokenList.rejection]
  rcases remaining with _ | ⟨token, rest⟩
  · -- the end offends: the whole body has been consumed
    have hfailure : Parser.statements (.statement nestingLimit) front = .error ⟨e, []⟩ := by
      simpa using hahead [] rfl
    rw [List.append_nil] at hbody
    rcases eq_body_or_stop tokens with ⟨hall, hstop⟩ | ⟨hkind, after, hall⟩
    · rw [hbody] at hall
      obtain ⟨last, hlast⟩ : ∃ last, front.getLast? = some last := by
        rcases hlast : front.getLast? with _ | last
        · rw [List.getLast?_eq_none_iff.1 hlast] at hfailure
          simp at hfailure
        · exact ⟨last, rfl⟩
      rw [hstop, hall, impliedStop, hlast]
      exact .of_end hlast hviable (not_sentence_of_error hfailure hne)
    · rw [hbody] at hall
      generalize (TokenList.of tokens).stop = stop at hkind hall ⊢
      rw [hall]
      exact .of_token hviable (final_of_end hfront hkind hfailure)
        (fun _ => not_sentence_of_error hfailure hne) after
  · -- a token of the body offends
    obtain ⟨htoken, -⟩ := endFree_cons.1 hremaining
    obtain ⟨tail, htail⟩ := List.takeWhile_prefix (l := tokens) (·.kind != .finish)
    have hall : tokens = front ++ token :: (rest ++ tail) := by
      rw [← List.cons_append, ← List.append_assoc, ← hbody]
      exact htail.symm
    rw [hall]
    exact .of_token hviable (final_of_token hfront htoken hne fun rest => hahead _ rfl)
      (fun hkind => absurd hkind htoken) (rest ++ tail)

/-- The tokens of `Match (x) { Default: { } Default: }`, the end of the text being among them. -/
def twoDefaults : List Token := [
  ⟨.keyword .matchWord, "Match", ⟨1, 1⟩⟩, ⟨.mark .leftParen, "(", ⟨1, 7⟩⟩,
  ⟨.identifier, "x", ⟨1, 8⟩⟩, ⟨.mark .rightParen, ")", ⟨1, 9⟩⟩,
  ⟨.mark .leftBrace, "\x7b", ⟨1, 11⟩⟩, ⟨.keyword .default, "Default", ⟨2, 1⟩⟩,
  ⟨.mark .colon, ":", ⟨2, 8⟩⟩, ⟨.mark .leftBrace, "\x7b", ⟨2, 10⟩⟩,
  ⟨.mark .rightBrace, "\x7d", ⟨2, 12⟩⟩, ⟨.keyword .default, "Default", ⟨3, 1⟩⟩,
  ⟨.mark .colon, ":", ⟨3, 8⟩⟩, ⟨.mark .rightBrace, "\x7d", ⟨3, 10⟩⟩, .finish ⟨3, 11⟩]

theorem earliestMisfit_twoDefaults :
    parseProgram twoDefaults = .error ⟨.oneDefault, ⟨.keyword .default, "Default", ⟨3, 1⟩⟩⟩ ∧
    Expectation.oneDefault ≠ .shallower ∧ stopIndex twoDefaults = 9 ∧
    EarliestMisfit twoDefaults ⟨.oneDefault, ⟨.keyword .default, "Default", ⟨3, 1⟩⟩⟩
      (stopIndex twoDefaults) := by
  have h : parseProgram twoDefaults =
      .error ⟨.oneDefault, ⟨.keyword .default, "Default", ⟨3, 1⟩⟩⟩ := by cbv
  have hne : Expectation.oneDefault ≠ .shallower := by decide
  exact ⟨h, hne, by cbv, parseProgram_earliestMisfit h hne⟩

end ScriptFrontend
