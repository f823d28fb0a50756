import ScriptFrontend.Proofs.Descent.Depth
import ScriptFrontend.Proofs.Descent.Follow
import ScriptFrontend.Proofs.Parse.Concat

/-!
# Proofs/Descent/Program — programs with and without a bound on nesting

    tokens ──descent──▸ the one reply of the parser without a bound      (`Unbounded`)
      │                   │
      │                   │ unless more is open somewhere than there is room for
      ▼                   ▼
    parseUpTo limit tokens                                              (`parseUpTo_unbounded`)

Without a bound the descent through a list comes to an end, since every call is below the one that
makes it (`descent_ends`).  With one, a program is nested too deeply exactly if more than the limit
is open at some call of that descent; else the bound makes no difference.
-/

namespace ScriptFrontend

open Descent Machine

/-- **The program that a list of tokens spells**, with room for a number of nested parentheses,
prefix operators and blocks. -/
def parseUpTo (limit : Nat) (tokens : List Token) : Except Rejection Node :=
  match parseWithin limit tokens with
  | .ok body => .ok (programOf body)
  | .error failure => .error ((TokenList.of tokens).rejection failure)

/-- A list is nested too deeply for a limit. -/
def TooDeep (limit : Nat) (tokens : List Token) : Prop :=
  ∃ token, parseUpTo limit tokens = .error ⟨.shallower, token⟩

/-- The parser without a bound gives a reply to a list. -/
def Unbounded (tokens : List Token) (reply : Reply (List Node)) : Prop :=
  (descent (TokenList.of tokens).stop).Runs (.invoke 0 (.program [])) (TokenList.of tokens).body reply

/-- The parser without a bound comes to a call, at which a number of constructs are open. -/
def OpenAt (tokens : List Token) (n : Nat) (c : Descent.Call Routine) : Prop :=
  (descent (TokenList.of tokens).stop).Reaches (.invoke 0 (.program [])) (TokenList.of tokens).body n c

/-- The first call that the parser without a bound comes to at which more than a limit is open. -/
def FirstBeyond (limit : Nat) (tokens : List Token) (c : Descent.Call Routine) : Prop :=
  (descent (TokenList.of tokens).stop).First limit (.invoke 0 (.program []))
    (TokenList.of tokens).body c

/-- What a reply of the parser without a bound comes to. -/
def TokenList.outcome (list : TokenList) : Reply (List Node) → Except Rejection Node
  | (.ok nodes, _) => .ok (programOf nodes)
  | (.error e, left) => .error (list.rejection ⟨e, left⟩)

variable {limit more n : Nat} {tokens : List Token} {reply : Reply (List Node)}
  {c : Descent.Call Routine}

theorem parseProgram_eq_parseUpTo : parseProgram tokens = parseUpTo nestingLimit tokens := rfl

theorem parseUpTo_eq :
    parseUpTo limit tokens = (TokenList.of tokens).outcome
      (Parser.replyOf (parseWithin limit tokens)) := by
  rw [parseUpTo]
  cases parseWithin limit tokens <;> rfl

theorem tooDeep_iff_parseWithin :
    TooDeep limit tokens ↔ ∃ left, parseWithin limit tokens = .error ⟨.shallower, left⟩ := by
  unfold TooDeep parseUpTo
  rcases parseWithin limit tokens with ⟨e, left⟩ | nodes
  · simp [TokenList.rejection]
  · simp

/-! ## The reply of the parser without a bound -/

/-- **The parser without a bound gives one reply to every list.** -/
theorem exists_unbounded (tokens : List Token) :
    ∃ reply, ∀ other, Unbounded tokens other ↔ other = reply := by
  obtain ⟨reply, hrun⟩ := (ranked (TokenList.of tokens).stop).ends (.program []) _
  refine ⟨reply, fun other => ⟨fun h => h.unique (.call hrun), ?_⟩⟩
  rintro rfl
  exact .call hrun

/-- There is a token for each construct that is open. -/
theorem OpenAt.le_openers (h : OpenAt tokens n c) : n ≤ openers (TokenList.of tokens).body :=
  Nat.le_trans (Nat.le_add_right _ _) (openers_of_reaches h)

/-- **With a bound, a program is nested too deeply or read as it is without one.** -/
theorem tooDeep_or_unbounded (limit : Nat) (tokens : List Token) :
    (∃ c, FirstBeyond limit tokens c ∧ parseWithin limit tokens = .error ⟨.shallower, c.ahead⟩) ∨
      Unbounded tokens (Parser.replyOf (parseWithin limit tokens)) ∧
        ∀ n c, OpenAt tokens n c → n ≤ limit := by
  have hbounded : (descent (TokenList.of tokens).stop).Bounded limit _ (TokenList.of tokens).body
      (Parser.replyOf (parseWithin limit tokens)) := Parser.bounded_statements limit _
  rcases hbounded.split with hrun | ⟨c, hfirst, hreply⟩
  · exact .inr hrun
  · exact .inl ⟨c, hfirst, Parser.eq_error_of_replyOf hreply⟩

/-- Without a bound nothing is nested too deeply: there is enough room for the tokens of a list. -/
theorem Unbounded.ne_shallower {left : List Token} :
    ¬ Unbounded tokens (.error .shallower, left) := by
  intro h
  -- so much room is never run out of
  have hdeep : ∀ left, parseWithin ((TokenList.of tokens).body.length + 1) tokens ≠
      .error ⟨.shallower, left⟩ := fun left hwithin => by
    have := Parser.deep_statements (Parser.reads_statement _).toLocal _ hwithin
    omega
  rcases tooDeep_or_unbounded ((TokenList.of tokens).body.length + 1) tokens with
    ⟨c, -, hwithin⟩ | ⟨hrun, -⟩
  · exact hdeep _ hwithin
  · exact hdeep left (Parser.eq_error_of_replyOf (hrun.unique h))

/-! ## Nested too deeply -/

/-- **A program is nested too deeply exactly if more than the limit is open somewhere.** -/
theorem tooDeep_iff_openAt : TooDeep limit tokens ↔ ∃ n c, OpenAt tokens n c ∧ limit < n := by
  rw [tooDeep_iff_parseWithin]
  constructor
  · rintro ⟨left, hwithin⟩
    rcases tooDeep_or_unbounded limit tokens with ⟨c, hfirst, -⟩ | ⟨hrun, -⟩
    · exact ⟨limit + 1, c, hfirst.reaches, Nat.lt_succ_self _⟩
    · rw [hwithin] at hrun
      exact absurd hrun Unbounded.ne_shallower
  · rintro ⟨n, c, hopen, hlt⟩
    rcases tooDeep_or_unbounded limit tokens with ⟨c, -, hwithin⟩ | ⟨-, hle⟩
    · exact ⟨_, hwithin⟩
    · exact absurd (hle n c hopen) (Nat.not_le_of_lt hlt)

/-- The token that is reported stands where the first such call is. -/
theorem exists_first_of_tooDeep {token : Token}
    (h : parseUpTo limit tokens = .error ⟨.shallower, token⟩) :
    ∃ c, FirstBeyond limit tokens c ∧ token = c.ahead.headD (TokenList.of tokens).stop := by
  rcases tooDeep_or_unbounded limit tokens with ⟨c, hfirst, hwithin⟩ | ⟨-, hle⟩
  · rw [parseUpTo, hwithin] at h
    exact ⟨c, hfirst, by simpa [TokenList.rejection] using h.symm⟩
  · obtain ⟨n, c, hopen, hlt⟩ := tooDeep_iff_openAt.1 ⟨token, h⟩
    exact absurd (hle n c hopen) (Nat.not_le_of_lt hlt)

/-- **Else the bound makes no difference.** -/
theorem parseUpTo_of_not_tooDeep (h : ¬ TooDeep limit tokens) (hreply : Unbounded tokens reply) :
    parseUpTo limit tokens = (TokenList.of tokens).outcome reply := by
  rcases tooDeep_or_unbounded limit tokens with ⟨c, -, hwithin⟩ | ⟨hrun, -⟩
  · exact absurd (tooDeep_iff_parseWithin.2 ⟨_, hwithin⟩) h
  · rw [parseUpTo_eq, hrun.unique hreply]

theorem TooDeep.of_le (h : TooDeep more tokens) (hle : limit ≤ more) : TooDeep limit tokens := by
  obtain ⟨n, c, hopen, hlt⟩ := tooDeep_iff_openAt.1 h
  exact tooDeep_iff_openAt.2 ⟨n, c, hopen, Nat.lt_of_le_of_lt hle hlt⟩

/-- **Behind a program that is read, what is nested too deeply is so by itself.** -/
theorem tooDeep_append {front back : List Token} {nodes : List Node} (hfree : Grammar.EndFree front)
    (hfront : parseUpTo limit front = .ok (programOf nodes))
    (hback : ∀ token ∈ back.head?, token.kind ≠ .keyword .elseWord) :
    TooDeep limit (front ++ back) ↔ TooDeep limit back := by
  rcases hwithin : parseWithin limit front with failure | read
  · simp [parseUpTo, hwithin] at hfront
  · rw [parseWithin, body_of_endFree hfree] at hwithin
    have hall := Parser.statements_append
      (fun token (hmem : token ∈ (TokenList.of back).body.head?) => hback token (head?_body hmem))
      front hwithin
    rw [← body_append hfree] at hall
    rw [tooDeep_iff_parseWithin, tooDeep_iff_parseWithin, parseWithin, parseWithin, hall]
    cases Parser.statements (.statement limit) (TokenList.of back).body <;> simp [Except.map]

/-- **A reply of the parser without a bound**, and what it says of those with one. -/
structure RepliedWithout (tokens : List Token) (reply : Reply (List Node)) : Prop where
  /-- There is no other one. -/
  sole : ∀ other, Unbounded tokens other ↔ other = reply
  ne_shallower : ∀ left, reply ≠ (.error .shallower, left)
  /-- What it leaves stands behind all calls of the descent. -/
  behind : ∀ n c, OpenAt tokens n c → reply.2 <:+ c.ahead
  /-- A list is nested too deeply exactly if more than the limit is open at some call. -/
  tooDeep_iff : ∀ limit, TooDeep limit tokens ↔ ∃ n c, OpenAt tokens n c ∧ limit < n
  /-- Else the limit makes no difference. -/
  same : ∀ limit, ¬ TooDeep limit tokens →
    parseUpTo limit tokens = (TokenList.of tokens).outcome reply

/-- **What a bound on nesting does to a list.** -/
structure BoundedAsWithout (tokens : List Token) : Prop where
  nominal : parseProgram tokens = parseUpTo nestingLimit tokens
  replied : ∃ reply, RepliedWithout tokens reply
  /-- The token that is reported stands at the first call at which more is open. -/
  reported : ∀ limit token, parseUpTo limit tokens = .error ⟨.shallower, token⟩ →
    ∃ c, FirstBeyond limit tokens c ∧ token = c.ahead.headD (TokenList.of tokens).stop
  /-- There is a token for each construct that is open. -/
  few : ∀ limit, openers (TokenList.of tokens).body ≤ limit → ¬ TooDeep limit tokens
  /-- More room changes no other result. -/
  more : ∀ limit more, limit ≤ more → ¬ TooDeep limit tokens →
    parseUpTo more tokens = parseUpTo limit tokens
  /-- Behind a program that is read, what is nested too deeply is so by itself. -/
  following : ∀ limit back nodes, Grammar.EndFree tokens →
    parseUpTo limit tokens = .ok (programOf nodes) →
    (∀ token ∈ back.head?, token.kind ≠ .keyword .elseWord) →
    (TooDeep limit (tokens ++ back) ↔ TooDeep limit back)

/-- **What counts as open** in the descent through a list that ends in a token. -/
structure CountsOpen (stop : Token) : Prop where
  /-- Groups, operands of prefix operators and blocks count while they last; nothing else does. -/
  entering : ∀ (c : Descent.Call Routine) n c', (descent stop).Makes c.routine.text c.ahead n c' →
    n = 1 ∧ Enters c c' ∨ n = 0 ∧ ¬ Enters c c'
  /-- What stands one behind the other does not add up. -/
  sequence : ∀ {α β : Type} (code : Code Routine α) (next : α → Code Routine β) ahead a mid,
    (descent stop).Runs code ahead (.ok a, mid) → ∀ n c,
      (descent stop).Reaches (code >>= next) ahead n c ↔
        (descent stop).Reaches code ahead n c ∨ (descent stop).Reaches (next a) mid n c

theorem exists_repliedWithout (tokens : List Token) : ∃ reply, RepliedWithout tokens reply := by
  obtain ⟨reply, hreply⟩ := exists_unbounded tokens
  have hrun : Unbounded tokens reply := (hreply reply).2 rfl
  exact ⟨reply, {
    sole := hreply
    ne_shallower := fun left heq => Unbounded.ne_shallower (heq ▸ hrun)
    behind := fun n c => hrun.suffix_of_reaches
    tooDeep_iff := fun limit => tooDeep_iff_openAt
    same := fun limit h => parseUpTo_of_not_tooDeep h hrun }⟩

/-- **Only nesting can be too deep**: a bound on nesting is felt exactly where the parser without a
bound comes to a call at which more is open, before it meets an offending token. -/
theorem parseUpTo_unbounded :
    (∀ tokens, BoundedAsWithout tokens) ∧ ∀ stop, CountsOpen stop := by
  refine ⟨fun tokens => ?_, fun stop =>
    ⟨fun _ _ _ => opens_of_makes, fun _ _ _ _ _ hrun _ _ => hrun.reaches_bind⟩⟩
  exact {
    nominal := parseProgram_eq_parseUpTo
    replied := exists_repliedWithout tokens
    reported := fun limit token => exists_first_of_tooDeep
    few := fun limit hle hdeep => by
      obtain ⟨n, c, hopen, hlt⟩ := tooDeep_iff_openAt.1 hdeep
      exact absurd (Nat.lt_of_lt_of_le hlt (hopen.le_openers.trans hle)) (Nat.lt_irrefl _)
    more := fun limit more hle hdeep => by
      obtain ⟨reply, hreply⟩ := exists_repliedWithout tokens
      rw [hreply.same limit hdeep, hreply.same more fun h => hdeep (h.of_le hle)]
    following := fun limit back nodes => tooDeep_append }

/-- Two prefix operators one behind the other: `a = !!b;`. -/
def nestedSigns : List Token :=
  [⟨.identifier, "a", ⟨1, 1⟩⟩, ⟨.operator .assign, "=", ⟨1, 3⟩⟩, ⟨.operator .not, "!", ⟨1, 5⟩⟩,
    ⟨.operator .not, "!", ⟨1, 6⟩⟩, ⟨.identifier, "b", ⟨1, 7⟩⟩, ⟨.mark .semicolon, ";", ⟨1, 8⟩⟩]

/-- Those of two operands: `a = !b - !c;`. -/
def joinedSigns : List Token :=
  [⟨.identifier, "a", ⟨1, 1⟩⟩, ⟨.operator .assign, "=", ⟨1, 3⟩⟩, ⟨.operator .not, "!", ⟨1, 5⟩⟩,
    ⟨.identifier, "b", ⟨1, 6⟩⟩, ⟨.operator .minus, "-", ⟨1, 8⟩⟩, ⟨.operator .not, "!", ⟨1, 10⟩⟩,
    ⟨.identifier, "c", ⟨1, 11⟩⟩, ⟨.mark .semicolon, ";", ⟨1, 12⟩⟩]

/-- What `joinedSigns` spells. -/
def joinedBody : List Node :=
  [.assign "a" (.binary (.unary "!" (.identifier "b" ⟨1, 6⟩) ⟨1, 5⟩) "-"
    (.unary "!" (.identifier "c" ⟨1, 11⟩) ⟨1, 10⟩) ⟨1, 8⟩) ⟨1, 1⟩]

/-- With room for one, only the signs that are nested are too deep, also behind the others. -/
theorem parseUpTo_signs :
    parseUpTo 2 joinedSigns = .ok (programOf joinedBody) ∧
    (∃ c, FirstBeyond 1 nestedSigns c ∧
      c.ahead.headD (TokenList.of nestedSigns).stop = ⟨.identifier, "b", ⟨1, 7⟩⟩) ∧
    TooDeep 1 (joinedSigns ++ nestedSigns) := by
  obtain ⟨hbounded, -⟩ := parseUpTo_unbounded
  have hjoined : parseUpTo 1 joinedSigns = .ok (programOf joinedBody) := by cbv
  have hnested : parseUpTo 1 nestedSigns = .error ⟨.shallower, ⟨.identifier, "b", ⟨1, 7⟩⟩⟩ := by cbv
  have hroom : ¬ TooDeep 1 joinedSigns := by
    rintro ⟨token, hdeep⟩
    cases hjoined.symm.trans hdeep
  obtain ⟨c, hc, htoken⟩ := (hbounded nestedSigns).reported _ _ hnested
  have hmore := (hbounded joinedSigns).more 1 2 (by decide) hroom
  refine ⟨hmore.trans hjoined, ⟨c, hc, htoken.symm⟩, ?_⟩
  exact ((hbounded joinedSigns).following 1 nestedSigns joinedBody (by simp [joinedSigns]) hjoined
    (by simp [nestedSigns])).2 ⟨_, hnested⟩

/-! ## The end of the descent -/

/-- **The calls of a descent come to an end.** -/
structure ComesToEnd (stop : Token) : Prop where
  /-- A call is made in front of fewer tokens, or of the same ones by a method of a higher level. -/
  below : ∀ (c : Descent.Call Routine) n c', (descent stop).Makes c.routine.text c.ahead n c' →
    c'.ahead <:+ c.ahead ∧ c'.Below Routine.ranks c
  /-- No method is called again in front of the same tokens while it lasts. -/
  fresh : ∀ (c : Descent.Call Routine) n c', (descent stop).Reaches c.routine.text c.ahead n c' →
    c'.ahead = c.ahead → c'.routine.method ≠ c.routine.method
  /-- Every routine has one reply in front of any tokens. -/
  reply : ∀ {α : Type} (routine : Routine α) ahead,
    ∃! reply, (descent stop).Runs routine.text ahead reply

/-- **A list is read to an end**: with the reply of the descent, or too deep. -/
structure ReadToEnd (tokens : List Token) (reply : Reply (List Node)) : Prop where
  unbounded : Unbounded tokens reply
  ne_shallower : ∀ left, reply ≠ (.error .shallower, left)
  result : parseProgram tokens = (TokenList.of tokens).outcome reply ∨
    (∃ token, parseProgram tokens = .error ⟨.shallower, token⟩) ∧
      ∃ n c, OpenAt tokens n c ∧ nestingLimit < n

theorem comesToEnd (stop : Token) : ComesToEnd stop where
  below c n c' h := ⟨h.suffix, (ranked stop).below_of_makes h⟩
  fresh c n c' h hsame hmethod := by
    rcases (ranked stop).below_of_reaches h with hfewer | ⟨-, hlevel⟩
    · exact absurd (congrArg List.length hsame) (Nat.ne_of_lt hfewer)
    · exact absurd (congrArg Method.rank hmethod) (Nat.ne_of_lt hlevel)
  reply routine ahead := by
    obtain ⟨reply, hrun⟩ := (ranked stop).ends routine ahead
    exact ⟨reply, hrun, fun other h => h.unique hrun⟩

theorem exists_readToEnd (tokens : List Token) : ∃ reply, ReadToEnd tokens reply := by
  obtain ⟨reply, hreply⟩ := exists_repliedWithout tokens
  refine ⟨reply, (hreply.sole reply).2 rfl, hreply.ne_shallower, ?_⟩
  by_cases hdeep : TooDeep nestingLimit tokens
  · exact .inr ⟨hdeep, (hreply.tooDeep_iff _).1 hdeep⟩
  · exact .inl (hreply.same _ hdeep)

/-- **Every list of tokens is read to an end**: what bounds the descent is the number of tokens left
in front of the end of the text and, where none is consumed, the level of the method. -/
theorem descent_ends :
    WellFounded (Descent.Call.Below Routine.ranks) ∧ (∀ stop, ComesToEnd stop) ∧
    ∀ tokens, ∃ reply, ReadToEnd tokens reply :=
  ⟨Call.wellFounded_below _, comesToEnd, exists_readToEnd⟩

end ScriptFrontend
