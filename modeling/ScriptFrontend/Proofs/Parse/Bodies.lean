import ScriptFrontend.Parse.Macros
import ScriptFrontend.Proofs.Parse.Tidy

/-!
# Proofs/Parse/Bodies — what stands in the body of a macro region is not seen

A macro region reads `| name : … |`.  `Region` says where a token stands with regard to such
regions; it is found from the kinds in front of the token alone.  Two lists are **veiled** from each
other if they differ in the tokens of bodies only, of which one list may have more than the other
(`Veiled`); `outsideBodies` leaves all of them out.

A parser is **blind** if it answers alike on lists that are veiled from each other (`Blind`).  Being
blind is kept by every way of putting parsers together that takes no bar, and the production of a
macro region, which takes two, skips exactly a body.  So statements are blind, and a program is
the same whatever stands in its macro regions (`statements_veiled`).
-/

namespace ScriptFrontend

/-! ## Regions -/

/-- Where a token stands: outside macro regions, where the name or the colon of one stands, or in
its body or at the bar behind it. -/
inductive Region where
  | outside | name | colon | body
  deriving DecidableEq

namespace Region

/-- Where the token behind one of a kind stands. -/
def next : Region → Kind → Region
  | outside, kind => if kind = .operator .pipe then name else outside
  | name, _ => colon
  | colon, _ => body
  | body, kind => if kind = .operator .pipe then outside else body

/-- Whether a token of a kind belongs to a body there. -/
def hides (region : Region) (kind : Kind) : Bool :=
  region == body && kind != .operator .pipe

theorem next_outside {kind : Kind} (h : kind ≠ .operator .pipe) : outside.next kind = outside :=
  if_neg h

@[simp] theorem next_body_pipe : body.next (.operator .pipe) = outside := rfl

@[simp] theorem hides_pipe (region : Region) : region.hides (.operator .pipe) = false := by
  cases region <;> rfl

theorem hides_of_ne_body {region : Region} (h : region ≠ body) (kind : Kind) :
    region.hides kind = false := by
  simp [hides, h]

end Region

/-- **The tokens outside the bodies of macro regions**, from one that stands in a given region. -/
def outsideBodies : Region → List Token → List Token
  | _, [] => []
  | region, token :: rest =>
    if region.hides token.kind then outsideBodies region rest
    else token :: outsideBodies (region.next token.kind) rest

/-- **Lists that differ in the bodies of macro regions only**, from a token that stands in a given
region. -/
inductive Veiled : Region → List Token → List Token → Prop where
  | nil {region : Region} : Veiled region [] []
  | cons {region : Region} {token : Token} {rest rest' : List Token} :
    Veiled (region.next token.kind) rest rest' → Veiled region (token :: rest) (token :: rest')
  | left {region : Region} {token : Token} {rest rest' : List Token} :
    region.hides token.kind = true → Veiled region rest rest' →
    Veiled region (token :: rest) rest'
  | right {region : Region} {token : Token} {rest rest' : List Token} :
    region.hides token.kind = true → Veiled region rest rest' →
    Veiled region rest (token :: rest')

theorem veiled_outsideBodies : ∀ (region : Region) (tokens : List Token),
    Veiled region tokens (outsideBodies region tokens)
  | _, [] => .nil
  | region, token :: rest => by
    rw [outsideBodies]
    split
    next hhides => exact .left hhides (veiled_outsideBodies region rest)
    next => exact .cons (veiled_outsideBodies _ rest)

/-- Where no body is open, lists start with the same token. -/
theorem Veiled.cases_of_ne_body {region : Region} {tokens others : List Token}
    (h : Veiled region tokens others) (hregion : region ≠ .body) :
    tokens = [] ∧ others = [] ∨
    ∃ token rest rest', tokens = token :: rest ∧ others = token :: rest' ∧
      Veiled (region.next token.kind) rest rest' := by
  cases h with
  | nil => exact .inl ⟨rfl, rfl⟩
  | cons hrest => exact .inr ⟨_, _, _, rfl, rfl, hrest⟩
  | left hhides | right hhides => simp [Region.hides_of_ne_body hregion] at hhides

theorem Veiled.head?_eq {region : Region} {tokens others : List Token}
    (h : Veiled region tokens others) (hregion : region ≠ .body) : tokens.head? = others.head? := by
  rcases h.cases_of_ne_body hregion with ⟨rfl, rfl⟩ | ⟨token, rest, rest', rfl, rfl, -⟩ <;> rfl

/-- Outside regions, behind a token that is no bar, lists are veiled again. -/
theorem Veiled.behind {token : Token} {rest rest' : List Token}
    (h : Veiled (Region.outside.next token.kind) rest rest')
    (hkind : token.kind ≠ .operator .pipe) :
    Veiled .outside rest rest' := by
  rwa [Region.next_outside hkind] at h

namespace Parser

variable {α β σ : Type} {p : Parser α} {q : Parser β}

/-! ## Blind parsers -/

/-- **The same answers**, in front of what is veiled again or at the same token. -/
inductive Unseen : Reply α → Reply α → Prop where
  | ok {a : α} {rest rest' : List Token} : Veiled .outside rest rest' →
    Unseen (.ok a, rest) (.ok a, rest')
  | error {e : Expectation} {rest rest' : List Token} : rest.head? = rest'.head? →
    Unseen (.error e, rest) (.error e, rest')

/-- **A parser that does not see the bodies of macro regions**, from outside of them. -/
structure Blind (p : Parser α) : Prop where
  unseen : ∀ {tokens others}, Veiled .outside tokens others →
    Unseen (p.read tokens) (p.read others)

theorem Blind.cases (h : Blind p) {tokens others : List Token}
    (hveiled : Veiled .outside tokens others) :
    (∃ a rest rest', p.read tokens = (.ok a, rest) ∧ p.read others = (.ok a, rest') ∧
      Veiled .outside rest rest') ∨
    ∃ e rest rest', p.read tokens = (.error e, rest) ∧ p.read others = (.error e, rest') ∧
      rest.head? = rest'.head? := by
  have hread := h.unseen hveiled
  generalize p.read tokens = reply at hread ⊢
  generalize p.read others = reply' at hread ⊢
  cases hread with
  | ok hrest => exact .inl ⟨_, _, _, rfl, rfl, hrest⟩
  | error hrest => exact .inr ⟨_, _, _, rfl, rfl, hrest⟩

theorem blind_fail (e : Expectation) : Blind (fail e : Parser α) where
  unseen h := .error (h.head?_eq (by simp))

/-- Where no body is open, a token is taken from both lists or from none. -/
theorem take_veiled {region : Region} {tokens others : List Token}
    (h : Veiled region tokens others) (hregion : region ≠ .body) (kind : Kind) (e : Expectation) :
    (∃ token rest rest', (take kind e).read tokens = (.ok token, rest) ∧
      (take kind e).read others = (.ok token, rest') ∧ Veiled (region.next kind) rest rest') ∨
    ∃ rest rest', (take kind e).read tokens = (.error e, rest) ∧
      (take kind e).read others = (.error e, rest') ∧ rest.head? = rest'.head? := by
  rcases h.cases_of_ne_body hregion with ⟨rfl, rfl⟩ | ⟨token, rest, rest', rfl, rfl, hrest⟩
  · exact .inr ⟨[], [], rfl, rfl, rfl⟩
  rw [read_take_cons, read_take_cons]
  split
  next htoken => exact .inl ⟨token, rest, rest', rfl, rfl, htoken ▸ hrest⟩
  next => exact .inr ⟨_, _, rfl, rfl, rfl⟩

theorem blind_take {kind : Kind} (hkind : kind ≠ .operator .pipe) (e : Expectation) :
    Blind (take kind e) where
  unseen h := by
    rcases take_veiled h (by simp) kind e with
      ⟨token, rest, rest', hread, hread', hrest⟩ | ⟨rest, rest', hread, hread', hhead⟩
    · rw [hread, hread']
      exact .ok (Region.next_outside hkind ▸ hrest)
    · rw [hread, hread']
      exact .error hhead

theorem Unseen.map {tokens others : List Token} (h : Unseen (p.read tokens) (p.read others))
    (f : α → β) : Unseen ((p.map f).read tokens) ((p.map f).read others) := by
  rw [read_map, read_map]
  generalize p.read tokens = reply at h ⊢
  generalize p.read others = reply' at h ⊢
  cases h with
  | ok hrest => exact .ok hrest
  | error hhead => exact .error hhead

theorem Blind.map (h : Blind p) (f : α → β) : Blind (p.map f) where
  unseen hveiled := (h.unseen hveiled).map f

theorem Blind.bind {next : α → Parser β} (hp : Blind p) (hq : ∀ a, Blind (next a)) :
    Blind (p >>= next) where
  unseen hveiled := by
    rw [read_bind, read_bind]
    rcases hp.cases hveiled with ⟨a, rest, rest', hread, hread', hrest⟩ |
      ⟨e, rest, rest', hread, hread', hhead⟩
    · rw [hread, hread']
      exact (hq a).unseen hrest
    · rw [hread, hread']
      exact .error hhead

/-! ## Choice -/

theorem Blind.ifNext {yes no : Parser α} (hyes : Blind yes) (hno : Blind no) (kind : Kind) :
    Blind (ifNext kind yes no) where
  unseen hveiled := by
    rw [read_ifNext, read_ifNext, hveiled.head?_eq (by simp)]
    split
    · exact hyes.unseen hveiled
    · exact hno.unseen hveiled

theorem Blind.thenIf {kind : Kind} (hkind : kind ≠ .operator .pipe) (hp : Blind p) (hq : Blind q) :
    Blind (p.thenIf kind q) where
  unseen hveiled := by
    rcases hp.cases hveiled with ⟨a, rest, rest', hread, hread', hrest⟩ |
      ⟨e, rest, rest', hread, hread', hhead⟩
    · rw [read_thenIf_ok hread, read_thenIf_ok hread']
      rcases hrest.cases_of_ne_body (by simp) with
        ⟨rfl, rfl⟩ | ⟨token, behind, behind', rfl, rfl, hbehind⟩
      · exact .ok .nil
      · simp only [List.head?_cons, Option.any_some, beq_iff_eq, List.tail_cons]
        split
        next htoken =>
          rcases hq.cases (hbehind.behind (htoken ▸ hkind)) with
            ⟨b, left, left', hread, hread', hleft⟩ | ⟨e, left, left', hread, hread', hhead⟩
          · rw [hread, hread']
            exact .ok hleft
          · rw [hread, hread']
            exact .error hhead
        next => exact .ok hrest
    · rw [read_thenIf, read_thenIf, hread, hread']
      exact .error hhead

/-! ## Repetition

Both loops are followed by induction on what is left. -/

section While

variable {test : Kind → Bool} {combine : α → Token → β → α}

theorem unseen_readWhile (htest : test (.operator .pipe) = false) (hq : Blind q)
    {tokens others : List Token} (hveiled : Veiled .outside tokens others) (a : α) :
    Unseen (readWhile test q combine a tokens) (readWhile test q combine a others) := by
  rcases hveiled.cases_of_ne_body (by simp) with
    ⟨rfl, rfl⟩ | ⟨token, rest, rest', htokens, hothers, hrest⟩
  · simpa using .ok .nil
  · rw [htokens, hothers, readWhile_cons, readWhile_cons]
    split
    next htoken =>
      have hkind : token.kind ≠ .operator .pipe := fun hpipe => by simp [hpipe, htest] at htoken
      rcases hq.cases (hrest.behind hkind) with
        ⟨b, behind, behind', hread, hread', hbehind⟩ | ⟨e, behind, behind', hread, hread', hhead⟩
      · have hless := length_read hread
        rw [hread, hread']
        exact unseen_readWhile htest hq hbehind _
      · rw [hread, hread']
        exact .error hhead
    next => exact .ok (.cons hrest)
termination_by tokens.length
decreasing_by
  rw [htokens, List.length_cons]
  omega

theorem Blind.foldWhile (htest : test (.operator .pipe) = false) (hp : Blind p) (hq : Blind q) :
    Blind (p.foldWhile test q combine) where
  unseen hveiled := by
    rw [read_foldWhile, read_foldWhile]
    rcases hp.cases hveiled with ⟨a, rest, rest', hread, hread', hrest⟩ |
      ⟨e, rest, rest', hread, hread', hhead⟩
    · rw [hread, hread']
      exact unseen_readWhile htest hq hrest a
    · rw [hread, hread']
      exact .error hhead

end While

section Until

variable {close : Kind} {missing : Expectation} {step : σ → Parser σ}

theorem unseen_readUntil (hclose : close ≠ .operator .pipe) (hstep : ∀ s, Blind (step s))
    {tokens others : List Token} (hveiled : Veiled .outside tokens others) (s : σ) :
    Unseen (readUntil close missing step s tokens) (readUntil close missing step s others) := by
  rcases hveiled.cases_of_ne_body (by simp) with
    ⟨rfl, rfl⟩ | ⟨token, rest, rest', htokens, hothers, hrest⟩
  · simpa using .error rfl
  · rw [htokens, hothers, readUntil_cons, readUntil_cons]
    split
    next htoken => exact .ok (hrest.behind (htoken ▸ hclose))
    next =>
      rcases (hstep s).cases (.cons hrest) with
        ⟨t, behind, behind', hread, hread', hbehind⟩ | ⟨e, behind, behind', hread, hread', hhead⟩
      · have hless := length_read hread
        rw [hread, hread']
        exact unseen_readUntil hclose hstep hbehind t
      · rw [hread, hread']
        exact .error hhead
termination_by tokens.length
decreasing_by exact htokens ▸ hless

theorem Blind.foldUntil (hclose : close ≠ .operator .pipe) (hstep : ∀ s, Blind (step s)) (s : σ) :
    Blind (foldUntil close missing step s) where
  unseen hveiled := unseen_readUntil hclose hstep hveiled s

end Until

/-! ## The parsers of the language -/

/-- **Being blind is kept by every way of putting parsers together** that takes no bar. -/
theorem congruence_blind : Congruence fun _ p _ => Blind p where
  fail _ := blind_fail _
  take hkind _ := blind_take hkind _
  map f h := h.map f
  bind hp hq := hp.bind hq
  ifNext hyes hno := hyes.ifNext hno _
  refuseNext hno := (blind_fail _).ifNext hno _
  thenIf hkind hp hq := .thenIf hkind hp hq
  foldWhile htest hp hq := .foldWhile htest hp hq
  foldUntil s hclose _ hstep := .foldUntil hclose hstep s

/-- **What is skipped up to a bar is a body**, by induction on how the lists are veiled. -/
theorem unseen_skipThrough (missing : Expectation) {tokens others : List Token}
    (h : Veiled .body tokens others) :
    Unseen ((skipThrough (.operator .pipe) missing).read tokens)
      ((skipThrough (.operator .pipe) missing).read others) := by
  generalize hregion : Region.body = region at h
  induction h with
  | nil => exact .error rfl
  | @cons _ token rest rest' hrest ih =>
    subst hregion
    rw [read_skipThrough_cons, read_skipThrough_cons]
    split
    next htoken => exact .ok (by simpa [htoken] using hrest)
    next htoken => exact ih (if_neg htoken).symm
  | @left _ token rest rest' hhides _ ih =>
    subst hregion
    rw [read_skipThrough_cons, if_neg fun htoken => by simp [htoken] at hhides]
    exact ih rfl
  | @right _ token rest rest' hhides _ ih =>
    subst hregion
    rw [read_skipThrough_cons, if_neg fun htoken => by simp [htoken] at hhides]
    exact ih rfl

/-- Behind its bar, a macro region is read alike: its name and its colon stand where no body is
open. -/
theorem unseen_macroRegion (inner : Inner) (head : Token) {tokens others : List Token}
    (h : Veiled .name tokens others) :
    Unseen ((production inner head .macroRegion).read tokens)
      ((production inner head .macroRegion).read others) := by
  rw [production, read_bind, read_bind]
  rcases take_veiled h (by simp) .identifier .macroName with
    ⟨name, rest, rest', hread, hread', hrest⟩ | ⟨rest, rest', hread, hread', hhead⟩
  · rw [hread, hread']
    simp only [read_bind]
    rcases take_veiled hrest (by simp [Region.next]) (.mark .colon) .macroColon with
      ⟨colon, behind, behind', hread, hread', hbehind⟩ | ⟨behind, behind', hread, hread', hhead⟩
    · rw [hread, hread']
      exact (unseen_skipThrough _ hbehind).map _
    · rw [hread, hread']
      exact .error hhead
  · rw [hread, hread']
    exact .error hhead

theorem Blind.statementWith {inner : Inner} (h : InnerRelated (fun _ p _ => Blind p) inner inner) :
    Blind (statementWith inner) where
  unseen hveiled := by
    rcases hveiled.cases_of_ne_body (by simp) with
      ⟨rfl, rfl⟩ | ⟨token, rest, rest', rfl, rfl, hrest⟩
    · exact .error rfl
    rw [read_statementWith_cons, read_statementWith_cons]
    split
    next form hform =>
      have hkind := StatementForm.ofKind?_eq_some_iff.1 hform
      by_cases hmacro : form = .macroRegion
      · subst hmacro
        rw [← hkind] at hrest
        exact unseen_macroRegion inner token hrest
      · have hpipe : token.kind ≠ .operator .pipe := fun hpipe =>
          hmacro (by cases form <;> simp_all [StatementForm.kind])
        exact (congruence_blind.production h token hmacro).unseen (hrest.behind hpipe)
    next => exact .error rfl

/-- **Statements are blind.** -/
theorem blind_statement (room : Nat) : Blind (statement room) :=
  congruence_blind.statement (fun _ h => .statementWith h) room

/-- **The statements of a list do not depend on what stands in its macro regions**, by induction on
what is left. -/
theorem statements_veiled {p : Parser Node} (h : Blind p) {tokens others : List Token}
    (hveiled : Veiled .outside tokens others) :
    (∃ nodes, statements p tokens = .ok nodes ∧ statements p others = .ok nodes) ∨
    ∃ failure failure', statements p tokens = .error failure ∧
      statements p others = .error failure' ∧ failure.expected = failure'.expected ∧
      failure.remaining.head? = failure'.remaining.head? := by
  rcases hveiled.cases_of_ne_body (by simp) with
    ⟨rfl, rfl⟩ | ⟨token, rest, rest', htokens, hothers, hrest⟩
  · exact .inl ⟨[], statements_nil p, statements_nil p⟩
  · rw [htokens, hothers, statements_cons, statements_cons]
    rcases h.cases (.cons hrest) with ⟨node, behind, behind', hread, hread', hbehind⟩ |
      ⟨e, behind, behind', hread, hread', hhead⟩
    · have hless := length_read hread
      rw [hread, hread']
      rcases statements_veiled h hbehind with ⟨nodes, hnodes, hnodes'⟩ |
        ⟨failure, failure', hfailure, hfailure', he, hhead⟩
      · exact .inl ⟨node :: nodes, by simp only [hnodes]; rfl, by simp only [hnodes']; rfl⟩
      · exact .inr ⟨failure, failure', by simp only [hfailure]; rfl, by simp only [hfailure']; rfl,
          he, hhead⟩
    · rw [hread, hread']
      exact .inr ⟨_, _, rfl, rfl, rfl, hhead⟩
termination_by tokens.length
decreasing_by exact htokens ▸ hless

end Parser

end ScriptFrontend
