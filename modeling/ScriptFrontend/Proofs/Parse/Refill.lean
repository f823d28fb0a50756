import ScriptFrontend.Proofs.Parse.Concat
import ScriptFrontend.Proofs.Parse.Kinds
import ScriptFrontend.Proofs.Parse.Sites

/-!
# Proofs/Parse/Refill — a macro region may hold anything

The body of a macro region can be replaced by any other tokens, of any number and of any kinds but
bars and the end: the list is read to the same tree, or it is rejected at the same token and for the
same reason (`parseProgram_refill`).

Since statements are blind, both lists are read alike (`MacroSite.veiled`).  That says what token
offends but not where it stands, as an equal one may stand elsewhere.  But how much of a list is
left is a matter of kinds alone (`statements_of_kinds`), so the offending token may just as well be
marked by a place that no other token has (`markedAt`), and then it is found in both lists
(`length_remaining_of_veiled`).
-/

namespace ScriptFrontend

open Grammar

/-! ## Veiled lists -/

section Veiled

variable {region : Region} {tokens others : List Token}

theorem veiled_refl (region : Region) (tokens : List Token) : Veiled region tokens tokens := by
  induction tokens generalizing region with
  | nil => exact .nil
  | cons token tokens ih => exact .cons (ih _)

/-- The same tokens may follow. -/
theorem Veiled.append (h : Veiled region tokens others) (rest : List Token) :
    Veiled region (tokens ++ rest) (others ++ rest) := by
  induction h with
  | nil => exact veiled_refl _ rest
  | cons _ ih => exact .cons ih
  | left hhides _ ih => exact .left hhides ih
  | right hhides _ ih => exact .right hhides ih

/-- The same tokens may stand in front. -/
theorem Veiled.inFront (front : List Token) (h : Veiled (region.through front) tokens others) :
    Veiled region (front ++ tokens) (front ++ others) := by
  induction front generalizing region with
  | nil => exact h
  | cons token front ih => exact .cons (ih h)

/-- Tokens may be changed, but for their kinds. -/
theorem Veiled.map {f : Token → Token} (hf : ∀ token, (f token).kind = token.kind)
    (h : Veiled region tokens others) : Veiled region (tokens.map f) (others.map f) := by
  induction h with
  | nil => exact .nil
  | cons _ ih => exact .cons (by rwa [hf])
  | left hhides _ ih => exact .left (by rwa [hf]) ih
  | right hhides _ ih => exact .right (by rwa [hf]) ih

/-- A body may be put in front of one list. -/
theorem Veiled.body_left {body : List Token} (hbody : BarFree body)
    (h : Veiled .body tokens others) : Veiled .body (body ++ tokens) others := by
  induction body with
  | nil => exact h
  | cons token body ih =>
    obtain ⟨htoken, hbody⟩ := barFree_cons.1 hbody
    exact .left (by simpa [Region.hides] using htoken) (ih hbody)

theorem Veiled.body_right {body : List Token} (hbody : BarFree body)
    (h : Veiled .body tokens others) : Veiled .body tokens (body ++ others) := by
  induction body with
  | nil => exact h
  | cons token body ih =>
    obtain ⟨htoken, hbody⟩ := barFree_cons.1 hbody
    exact .right (by simpa [Region.hides] using htoken) (ih hbody)

end Veiled

/-- **A region is veiled from the same one with another body.** -/
theorem MacroSite.veiled (s : MacroSite) {body : List Token} (hbody : BarFree body) :
    Veiled .outside (s.passed s.body) (s.passed body) := by
  refine .inFront s.front ?_
  rw [s.outside]
  refine .cons (.cons (.cons ?_))
  rw [s.bar_kind]
  exact .body_left s.body_barFree (.body_right hbody (veiled_refl _ _))

/-! ## Marked tokens -/

/-- A token at no place. -/
def Token.displaced (token : Token) : Token := { token with place := .unplaced }

/-- A token at the start of a text. -/
def Token.marked (token : Token) : Token := { token with place := .start }

/-- A list in which one token is told from all others by its place. -/
def markedAt (front : List Token) (token : Token) (rest : List Token) : List Token :=
  front.map Token.displaced ++ token.marked :: rest.map Token.displaced

theorem kinds_markedAt (front : List Token) (token : Token) (rest : List Token) :
    (markedAt front token rest).map (·.kind) = (front ++ token :: rest).map (·.kind) := by
  simp [markedAt, Token.marked, Token.displaced, Function.comp_def]

theorem marked_not_mem (token : Token) (list : List Token) :
    token.marked ∉ list.map Token.displaced := by
  intro hmem
  obtain ⟨_, -, heq⟩ := List.mem_map.1 hmem
  have hplace : Location.unplaced = .start := congrArg Token.place heq
  exact absurd hplace (by decide)

/-- What stands behind the marked token is found by it. -/
theorem eq_of_marked {front rest rest' : List Token} {token : Token}
    (h : token.marked :: rest' <:+ markedAt front token rest) :
    rest' = rest.map Token.displaced := by
  obtain ⟨front', heq⟩ := h
  have hparts := (List.append_cons_inj_of_notMem (marked_not_mem token front)
    (marked_not_mem token rest)).1 heq.symm
  exact hparts.2.2.symm

theorem veiled_markedAt {front front' : List Token} (h : Veiled .outside front front')
    (mid : List Token) (token : Token) (rest : List Token) :
    Veiled .outside (markedAt (front ++ mid) token rest) (markedAt (front' ++ mid) token rest) := by
  simp only [markedAt, List.map_append]
  exact ((h.map (f := Token.displaced) fun _ => rfl).append _).append _

/-! ## Where a list is rejected -/

namespace Parser

variable {room : Nat} {front front' mid rest tokens others : List Token}
  {failure failure' : Failure}

/-- What is veiled from a rejected list is rejected. -/
theorem rejected_of_veiled (hveiled : Veiled .outside tokens others)
    (h : statements (statement room) tokens = .error failure) :
    ∃ failure', statements (statement room) others = .error failure' := by
  rcases statements_veiled (blind_statement room) hveiled with ⟨_, hok, -⟩ | ⟨_, failure', -, h', -⟩
  · simp [h] at hok
  · exact ⟨failure', h'⟩

/-- It is rejected in front of an equal token, and for the same reason. -/
theorem alike_of_veiled (hveiled : Veiled .outside tokens others)
    (h : statements (statement room) tokens = .error failure)
    (h' : statements (statement room) others = .error failure') :
    failure.remaining.head? = failure'.remaining.head? ∧ failure.expected = failure'.expected := by
  rcases statements_veiled (blind_statement room) hveiled with
    ⟨_, hok, -⟩ | ⟨one, two, hone, htwo, he, hhead⟩
  · simp [h] at hok
  · obtain rfl : failure = one := Except.error.inj (h.symm.trans hone)
    obtain rfl : failure' = two := Except.error.inj (h'.symm.trans htwo)
    exact ⟨hhead, he⟩

/-- **How much is left is a matter of kinds.** -/
theorem statements_of_kinds (hkinds : tokens.map (·.kind) = others.map (·.kind))
    (h : statements (statement room) tokens = .error failure) :
    ∃ failure', statements (statement room) others = .error failure' ∧
      failure'.remaining.length = failure.remaining.length := by
  have hlabels := statements_aligned (agrees_statement room) (aligned_labels tokens)
  have hlabels' := statements_aligned (agrees_statement room) (aligned_labels others)
  rw [hkinds] at hlabels
  rcases hlabels with ⟨_, -, hok⟩ | ⟨labelled, other, hlabelled, hother, -, hleft⟩
  · simp [h] at hok
  rcases hlabels' with ⟨_, hok, -⟩ | ⟨labelled', other', hlabelled', hother', -, hleft'⟩
  · simp [hlabelled] at hok
  obtain rfl := Except.error.inj (hlabelled.symm.trans hlabelled')
  obtain rfl := Except.error.inj (hother.symm.trans h)
  exact ⟨other', hother', hleft'.length_eq.symm.trans hleft.length_eq⟩

/-- What is left is a back of the list. -/
theorem suffix_of_error (h : statements (statement room) tokens = .error failure) :
    failure.remaining <:+ tokens := by
  obtain ⟨front, hsplit, -⟩ := ahead_statements (reads_statement room).toLocal tokens h
  exact ⟨front, hsplit.symm⟩

/-- As many tokens are left of a list that is marked. -/
theorem statements_markedAt {token : Token}
    (h : statements (statement room) (front ++ token :: rest) = .error failure) :
    ∃ failure', statements (statement room) (markedAt front token rest) = .error failure' ∧
      failure'.remaining.length = failure.remaining.length :=
  statements_of_kinds (kinds_markedAt front token rest).symm h

/-- **In front of the same tokens, as many of them are left**, since the offending one can be
marked. -/
theorem length_remaining_of_veiled (hveiled : Veiled .outside front front')
    (h : statements (statement room) (front ++ (mid ++ failure.remaining)) = .error failure)
    (h' : statements (statement room) (front' ++ (mid ++ failure.remaining)) = .error failure') :
    failure'.remaining.length = failure.remaining.length := by
  rcases hremaining : failure.remaining with _ | ⟨token, rest⟩
  · -- the end offends in both lists
    obtain ⟨hhead, -⟩ := alike_of_veiled (hveiled.append (mid ++ failure.remaining)) h h'
    rw [hremaining, List.head?_nil, eq_comm, List.head?_eq_none_iff] at hhead
    rw [hhead]
  rw [hremaining, ← List.append_assoc] at h h'
  obtain ⟨one, hone, hlength⟩ := statements_markedAt h
  obtain ⟨two, htwo, hlength'⟩ := statements_markedAt h'
  have hmark : one.remaining = token.marked :: rest.map Token.displaced := by
    refine (List.suffix_of_suffix_length_le (suffix_of_error hone) (List.suffix_append ..)
      ?_).eq_of_length ?_
    all_goals simp [hlength, hremaining]
  obtain ⟨hhead, -⟩ := alike_of_veiled (veiled_markedAt hveiled mid token rest) hone htwo
  rw [hmark, List.head?_cons, eq_comm, List.head?_eq_some_iff] at hhead
  obtain ⟨rest', hrest'⟩ := hhead
  have hsame : rest' = rest.map Token.displaced :=
    eq_of_marked (hrest' ▸ suffix_of_error htwo)
  rw [← hlength', hrest', hsame]
  simp

/-- **Behind what is veiled, the same tokens are left.** -/
theorem statements_of_veiled (hveiled : Veiled .outside front front')
    (h : statements (statement room) (front ++ (mid ++ failure.remaining)) = .error failure) :
    statements (statement room) (front' ++ (mid ++ failure.remaining)) = .error failure := by
  obtain ⟨failure', h'⟩ := rejected_of_veiled (hveiled.append (mid ++ failure.remaining)) h
  obtain ⟨-, hexpected⟩ := alike_of_veiled (hveiled.append (mid ++ failure.remaining)) h h'
  have hlength := length_remaining_of_veiled hveiled h h'
  have hback : failure.remaining <:+ front' ++ (mid ++ failure.remaining) :=
    (List.suffix_append mid _).trans (List.suffix_append _ _)
  have hsuffix : failure'.remaining <:+ failure.remaining :=
    List.suffix_of_suffix_length_le (suffix_of_error h') hback (Nat.le_of_eq hlength)
  obtain ⟨expected, remaining⟩ := failure
  obtain ⟨expected', remaining'⟩ := failure'
  obtain rfl : expected = expected' := hexpected
  obtain rfl : remaining' = remaining := hsuffix.eq_of_length hlength
  exact h'

end Parser

/-! ## Refilled regions -/

theorem body_initial (tokens : List Token) : (TokenList.of tokens).body <+: tokens :=
  List.takeWhile_prefix _

/-- What is in front of the end has no end in it. -/
theorem endFree_of_initial {tokens front : List Token} (h : front <+: tokens)
    (hlength : front.length ≤ (TokenList.of tokens).body.length) : EndFree front := by
  have hinitial := List.prefix_of_prefix_length_le h (body_initial tokens) hlength
  exact fun token hmem => endFree_body tokens token (hinitial.subset hmem)

/-- A list is rejected behind what its parser has consumed. -/
theorem stopIndex_eq {tokens front : List Token} {failure : Failure}
    (h : parseWithin nestingLimit tokens = .error failure)
    (hbody : (TokenList.of tokens).body = front ++ failure.remaining) :
    stopIndex tokens = front.length := by
  simp only [stopIndex, h, consumed_append hbody]

namespace MacroSite

variable {s : MacroSite} {body : List Token} {tree : Node} {rejection : Rejection}

theorem endFree_passed : EndFree (s.passed body) ↔ EndFree s.front ∧ EndFree body := by
  simp [passed, region, s.bar_kind, s.name_kind, s.colon_kind, s.closing_kind]

/-- A list with its end behind the region. -/
theorem body_tokensWith (hfree : EndFree (s.passed body)) :
    (TokenList.of (s.tokensWith body)).body = s.passed body ++ (TokenList.of s.back).body :=
  body_append hfree s.back

/-- A region opens in front of the end exactly if no end is in front of it. -/
theorem start_lt_iff (s : MacroSite) :
    s.start < (TokenList.of s.tokens).body.length ↔ EndFree s.front := by
  have hsplit : s.tokens =
      s.front ++ [s.bar] ++ (s.name :: s.colon :: (s.body ++ [s.closing]) ++ s.back) := by
    simp [tokens, tokensWith, passed, region]
  constructor
  · intro hlt
    exact endFree_of_initial ⟨_, (List.append_assoc ..).symm.trans hsplit.symm⟩ (Nat.le_of_lt hlt)
  · intro hfront
    have hfree : EndFree (s.front ++ [s.bar]) := by simp [hfront, s.bar_kind]
    rw [hsplit, body_append hfree]
    simp only [start, List.length_append, List.length_cons, List.length_nil]
    omega

/-- What ends the list does not depend on the body. -/
theorem stop_tokensWith (hfree : EndFree (s.passed body)) :
    (TokenList.of (s.tokensWith body)).stop = (TokenList.of (s.closing :: s.back)).stop := by
  have hsplit : s.tokensWith body =
      s.front ++ s.bar :: s.name :: s.colon :: body ++ s.closing :: s.back := by
    simp [tokensWith, passed, region]
  rw [hsplit]
  refine stop_append ?_ (by simp)
  obtain ⟨hfront, hbody⟩ := endFree_passed.1 hfree
  simp [hfront, hbody, s.bar_kind, s.name_kind, s.colon_kind]

/-- **A program stays one**, with the same tree. -/
theorem parseProgram_tokensWith (h : parseProgram s.tokens = .ok tree)
    (hfree : EndFree (s.passed s.body)) (hbar : BarFree body) (hbody : EndFree body) :
    parseProgram (s.tokensWith body) = .ok tree := by
  obtain ⟨nodes, hread, rfl⟩ := parseProgram_eq_ok_iff.1 h
  refine parseProgram_eq_ok_iff.2 ⟨nodes, ?_, rfl⟩
  rw [parseWithin, tokens, body_tokensWith hfree] at hread
  rw [parseWithin, body_tokensWith (endFree_passed.2 ⟨(endFree_passed.1 hfree).1, hbody⟩)]
  rcases Parser.statements_veiled (Parser.blind_statement nestingLimit)
    ((s.veiled hbar).append (TokenList.of s.back).body) with
    ⟨_, hone, htwo⟩ | ⟨_, _, hone, -⟩
  · obtain rfl := Except.ok.inj (hone.symm.trans hread)
    exact htwo
  · simp [hread] at hone

/-- **A list that is rejected behind the region still is**, there and for the same reason. -/
theorem parseProgram_tokensWith_error (h : parseProgram s.tokens = .error rejection)
    (hstop : s.stop ≤ stopIndex s.tokens) (hbar : BarFree body) (hbody : EndFree body) :
    parseProgram (s.tokensWith body) = .error rejection ∧
      stopIndex (s.tokensWith body) + s.body.length = stopIndex s.tokens + body.length := by
  obtain ⟨failure, hread, rfl⟩ := parseProgram_eq_error_iff.1 h
  obtain ⟨front, hsplit⟩ : failure.remaining <:+ (TokenList.of s.tokens).body :=
    Parser.suffix_of_error hread
  have hindex : stopIndex s.tokens = front.length := stopIndex_eq hread hsplit.symm
  -- the region is among the tokens in front of the offending one
  obtain ⟨mid, rfl⟩ : s.passed s.body <+: front := by
    have hinitial : front <+: (TokenList.of s.tokens).body := ⟨failure.remaining, hsplit⟩
    exact List.prefix_of_prefix_length_le (List.prefix_append _ _)
      (hinitial.trans (body_initial s.tokens)) (hindex ▸ hstop)
  have hfree : EndFree (s.passed s.body) := by
    have hall := endFree_body s.tokens
    rw [← hsplit] at hall
    exact (endFree_append.1 (endFree_append.1 hall).1).1
  have hfree' : EndFree (s.passed body) :=
    endFree_passed.2 ⟨(endFree_passed.1 hfree).1, hbody⟩
  have hback : (TokenList.of s.back).body = mid ++ failure.remaining := by
    rw [tokens, body_tokensWith hfree, List.append_assoc] at hsplit
    exact (List.append_cancel_left hsplit).symm
  have hbody' : (TokenList.of (s.tokensWith body)).body =
      s.passed body ++ mid ++ failure.remaining := by
    rw [body_tokensWith hfree', hback, List.append_assoc]
  have hread' : parseWithin nestingLimit (s.tokensWith body) = .error failure := by
    rw [parseWithin, ← hsplit, List.append_assoc] at hread
    rw [parseWithin, hbody', List.append_assoc]
    exact Parser.statements_of_veiled (s.veiled hbar) hread
  refine ⟨parseProgram_eq_error_iff.2 ⟨failure, hread', ?_⟩, ?_⟩
  · rw [TokenList.rejection, TokenList.rejection, stop_tokensWith hfree', tokens,
      stop_tokensWith hfree]
  · rw [hindex, stopIndex_eq hread' hbody']
    simp only [passed, region, List.length_append, List.length_cons]
    omega

end MacroSite

/-- **What stands in a macro region has no influence on anything else.**

* The macro regions of a program in front of its end are the macro nodes of its tree, one by one.
  Each of them may hold any other tokens but bars and the end: the list is a program with the same
  tree.
* If a list is rejected behind a macro region, it still is with any other such tokens in the region:
  for the same reason, at the same token, which has moved with the length of the body. -/
theorem parseProgram_refill :
    (∀ (tokens : List Token) (tree : Node), parseProgram tokens = .ok tree →
      ∃ sites : List MacroSite,
        sites.map MacroSite.node = tree.walk.filter (·.form == .macroRegion) ∧ sites.Nodup ∧
        (∀ s, s ∈ sites ↔ s.tokens = tokens ∧ EndFree s.front) ∧
        ∀ s ∈ sites, ∀ body, BarFree body → EndFree body →
          parseProgram (s.tokensWith body) = .ok tree) ∧
    ∀ (tokens : List Token) (rejection : Rejection), parseProgram tokens = .error rejection →
      ∀ s : MacroSite, s.tokens = tokens → s.stop ≤ stopIndex tokens →
        ∀ body, BarFree body → EndFree body →
          parseProgram (s.tokensWith body) = .error rejection ∧
          stopIndex (s.tokensWith body) + s.body.length = stopIndex tokens + body.length := by
  constructor
  · intro tokens tree h
    obtain ⟨sites, hopen, hnodes⟩ := exists_sites h
    refine ⟨sites, hnodes, hopen.nodup, fun s => ?_, fun s hs body hbar hbody => ?_⟩
    · rw [hopen.mem_iff]
      refine and_congr_right fun htokens => ?_
      rw [← htokens, s.start_lt_iff, and_iff_right (Nat.zero_le _)]
    · obtain ⟨rfl, -⟩ := (hopen.mem_iff s).1 hs
      have hfree : EndFree (s.passed s.body) :=
        endFree_of_initial (List.prefix_append _ _) (hopen.stop_le s hs)
      exact MacroSite.parseProgram_tokensWith h hfree hbar hbody
  · rintro _ rejection h s rfl hstop body hbar hbody
    exact MacroSite.parseProgram_tokensWith_error h hstop hbar hbody

/-- A region in a block, with a brace, a reserved word and an unknown token in it. -/
def blockSite (back : List Token) : MacroSite where
  front := [⟨.keyword .loop, "Loop", ⟨1, 1⟩⟩, ⟨.mark .leftBrace, "\x7b", ⟨1, 6⟩⟩]
  bar := ⟨.operator .pipe, "|", ⟨1, 8⟩⟩
  name := ⟨.identifier, "m", ⟨1, 10⟩⟩
  colon := ⟨.mark .colon, ":", ⟨1, 12⟩⟩
  body := [⟨.mark .rightBrace, "\x7d", ⟨1, 14⟩⟩, ⟨.keyword .ifWord, "if", ⟨1, 16⟩⟩,
    ⟨.unknown, "?", ⟨1, 19⟩⟩]
  closing := ⟨.operator .pipe, "|", ⟨1, 21⟩⟩
  back
  outside := rfl
  bar_kind := rfl
  name_kind := rfl
  colon_kind := rfl
  body_barFree := by simp
  closing_kind := rfl

/-- The block is read to the same tree with nothing in the region, and if no statement follows the
region it is rejected there, three tokens earlier. -/
theorem parseProgram_refill_block :
    parseProgram ((blockSite [⟨.mark .rightBrace, "\x7d", ⟨1, 23⟩⟩]).tokensWith []) =
      .ok (programOf [.loop [.macroRegion "m" ⟨1, 8⟩] ⟨1, 1⟩]) ∧
    parseProgram ((blockSite [⟨.unknown, "~", ⟨1, 23⟩⟩]).tokensWith []) =
      .error ⟨.statement, ⟨.unknown, "~", ⟨1, 23⟩⟩⟩ ∧
    stopIndex (blockSite [⟨.unknown, "~", ⟨1, 23⟩⟩]).tokens = 9 ∧
    stopIndex ((blockSite [⟨.unknown, "~", ⟨1, 23⟩⟩]).tokensWith []) = 6 := by
  obtain ⟨hprogram, hrejected⟩ := parseProgram_refill
  have hread : parseProgram (blockSite [⟨.mark .rightBrace, "\x7d", ⟨1, 23⟩⟩]).tokens =
      .ok (programOf [.loop [.macroRegion "m" ⟨1, 8⟩] ⟨1, 1⟩]) := by cbv
  have hoffends : parseProgram (blockSite [⟨.unknown, "~", ⟨1, 23⟩⟩]).tokens =
      .error ⟨.statement, ⟨.unknown, "~", ⟨1, 23⟩⟩⟩ := by cbv
  have hstop : stopIndex (blockSite [⟨.unknown, "~", ⟨1, 23⟩⟩]).tokens = 9 := by cbv
  obtain ⟨sites, -, -, hsites, hrefill⟩ := hprogram _ _ hread
  have hsite := (hsites (blockSite _)).2 ⟨rfl, by simp [blockSite]⟩
  obtain ⟨hsame, hmoved⟩ := hrejected _ _ hoffends (blockSite _) rfl (hstop ▸ by decide) []
    barFree_nil endFree_nil
  refine ⟨hrefill _ hsite [] barFree_nil endFree_nil, hsame, hstop, ?_⟩
  rw [hstop] at hmoved
  exact Nat.add_right_cancel hmoved

end ScriptFrontend
