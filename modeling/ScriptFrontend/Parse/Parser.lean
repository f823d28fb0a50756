import ScriptFrontend.Parse.Expectation

/-!
# Parse/Parser — parsers of lists of tokens

A `Parser` reads something off the front of a list of tokens.  It answers with what it read and the
tokens behind it, which are **fewer** — every parser consumes — or with a `Failure`: an expectation
and the tokens from the one that does not meet it on.

Since every parser consumes, whatever repeats a parser ends with the list; no repetition needs a
bound of its own.  The repetitions are `foldWhile`, which goes on while a token of some kind
follows, and `foldUntil`, which goes on up to and with a closing token.
-/

namespace ScriptFrontend

/-- Behind the first token there are fewer tokens. -/
theorem length_behind_lt (token : Token) (rest : List Token) :
    rest.length < (token :: rest).length := Nat.lt_succ_self _

theorem length_behind_le (token : Token) (rest : List Token) :
    rest.length ≤ (token :: rest).length := Nat.le_succ _

/-- An expectation that is not met, and the tokens from the one that does not meet it on. -/
structure Failure where
  expected : Expectation
  remaining : List Token
  deriving DecidableEq

/-- What a parser answers: a value with fewer tokens left than the bound, or a failure. -/
inductive Outcome (α : Type) (bound : Nat) where
  | done (value : α) (rest : List Token) (fewer : rest.length < bound)
  | failed (failure : Failure)

namespace Outcome

variable {α β : Type} {m n : Nat}

/-- The outcome seen from a greater bound. -/
def widen (h : m ≤ n) : Outcome α m → Outcome α n
  | done value rest fewer => done value rest (Nat.lt_of_lt_of_le fewer h)
  | failed failure => failed failure

/-- The outcome with a function applied to its value. -/
def map (f : α → β) : Outcome α n → Outcome β n
  | done value rest fewer => done (f value) rest fewer
  | failed failure => failed failure

end Outcome

/-- A parser. -/
structure Parser (α : Type) where
  run : (tokens : List Token) → Outcome α tokens.length

namespace Parser

variable {α β σ : Type}

/-- The parser that reads nothing and always fails. -/
def fail (expected : Expectation) : Parser α := ⟨fun tokens => .failed ⟨expected, tokens⟩⟩

/-- The parser with a function applied to what it reads. -/
def map (f : α → β) (p : Parser α) : Parser β := ⟨fun tokens => (p.run tokens).map f⟩

/-- One parser and then another one, which may depend on what the first one reads. -/
def bind (p : Parser α) (next : α → Parser β) : Parser β where
  run tokens :=
    match p.run tokens with
    | .done value rest fewer => ((next value).run rest).widen (Nat.le_of_lt fewer)
    | .failed failure => .failed failure

instance : Bind Parser := ⟨bind⟩

/-- The parser with a given value in place of what it reads. -/
def as (p : Parser α) (value : β) : Parser β := p.map fun _ => value

/-- **Reads one token of a kind.** -/
def take (kind : Kind) (expected : Expectation) : Parser Token where
  run
    | [] => .failed ⟨expected, []⟩
    | token :: rest =>
      if token.kind = kind then .done token rest (length_behind_lt token rest)
      else .failed ⟨expected, token :: rest⟩

/-- Chooses between two parsers by whether the next token is of a kind. -/
def ifNext (kind : Kind) (yes no : Parser α) : Parser α where
  run
    | [] => no.run []
    | token :: rest =>
      if token.kind = kind then yes.run (token :: rest) else no.run (token :: rest)

/-- A parser and, if a token of a kind follows, another one behind that token. -/
def thenIf (p : Parser α) (kind : Kind) (q : Parser β) : Parser (α × Option β) where
  run tokens :=
    match p.run tokens with
    | .failed failure => .failed failure
    | .done value [] fewer => .done (value, none) [] fewer
    | .done value (token :: rest) fewer =>
      if token.kind = kind then
        ((q.run rest).map fun other => (value, some other)).widen
          (Nat.le_of_lt (Nat.lt_trans (Nat.lt_succ_self _) fewer))
      else .done (value, none) (token :: rest) fewer

/-! ## Repetition -/

/-- Adds to a value what `next` reads, behind each token that passes a test. -/
def foldWhileFrom (test : Kind → Bool) (next : Parser β) (combine : α → Token → β → α)
    {bound : Nat} (value : α) :
    (tokens : List Token) → (fewer : tokens.length < bound) → Outcome α bound
  | [], fewer => .done value [] fewer
  | token :: rest, fewer =>
    if test token.kind then
      match next.run rest with
      | .failed failure => .failed failure
      | .done other behind shorter =>
        foldWhileFrom test next combine (combine value token other) behind
          (Nat.lt_trans (Nat.lt_trans shorter (Nat.lt_succ_self _)) fewer)
    else .done value (token :: rest) fewer
termination_by tokens => tokens.length
decreasing_by exact Nat.lt_trans shorter (Nat.lt_succ_self _)

/-- **Reads a value and, while a token passes a test, adds what follows it**, from left to right. -/
def foldWhile (first : Parser α) (test : Kind → Bool) (next : Parser β)
    (combine : α → Token → β → α) : Parser α where
  run tokens :=
    match first.run tokens with
    | .failed failure => .failed failure
    | .done value rest fewer => foldWhileFrom test next combine value rest fewer

/-- Changes a value by parsers up to a token of the closing kind. -/
def foldUntilFrom (close : Kind) (missing : Expectation) (step : σ → Parser σ) {bound : Nat}
    (value : σ) :
    (tokens : List Token) → (within : tokens.length ≤ bound) → Outcome σ bound
  | [], _ => .failed ⟨missing, []⟩
  | token :: rest, within =>
    if token.kind = close then .done value rest (Nat.lt_of_lt_of_le (Nat.lt_succ_self _) within)
    else
      match (step value).run (token :: rest) with
      | .failed failure => .failed failure
      | .done value behind shorter =>
        foldUntilFrom close missing step value behind
          (Nat.le_trans (Nat.le_of_lt shorter) within)
termination_by tokens => tokens.length
decreasing_by exact shorter

/-- **Changes a value by parsers up to and with a closing token.** -/
def foldUntil (close : Kind) (missing : Expectation) (step : σ → Parser σ) (value : σ) :
    Parser σ where
  run tokens := foldUntilFrom close missing step value tokens (Nat.le_refl _)

/-- Reads items up to and with a closing token. -/
def manyUntil (close : Kind) (missing : Expectation) (item : Parser α) : Parser (List α) :=
  (foldUntil close missing (fun read => item.map (· :: read)) []).map List.reverse

/-- Skips all tokens up to and with one of the closing kind. -/
def skipThrough (close : Kind) (missing : Expectation) : Parser Unit :=
  ⟨go⟩
where
  /-- Skips the tokens in front of the closing one. -/
  go : (tokens : List Token) → Outcome Unit tokens.length
    | [] => .failed ⟨missing, []⟩
    | token :: rest =>
      if token.kind = close then .done () rest (length_behind_lt token rest)
      else (go rest).widen (length_behind_le token rest)

end Parser

end ScriptFrontend
