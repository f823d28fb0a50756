import Mathlib.Data.List.Forall2
import ScriptFrontend.Proofs.Parse.Expression
import ScriptFrontend.Proofs.Tree.Relabel

/-!
# Proofs/Parse/Agree — parsers on lists of tokens that differ in lexemes and places

Two tokens **match** if their kinds are the same and, as far as they can come into a tree, their
texts and places are related by two functions; and if words that an expectation may quote stand in a
given relation (`Token.Matches`).  Two parsers **agree** if on lists that match token by token they
answer alike: both read something, and what they read is related, or both fail, with an expectation
that is the same but for words in that relation; and what they leave matches again
(`Parser.Agrees`).

There is one lemma for each way of putting parsers together.  They are what the parsers of
expressions are made of here, so an expression is read alike from lists that match, to trees that
are relabelled by the two functions (`agrees_expression`).
-/

namespace ScriptFrontend

/-! ## Matching tokens -/

/-- The kinds whose lexemes may come into a tree. -/
def Kind.isNamed : Kind → Bool
  | number | text | identifier | operator _ => true
  | _ => false

/-- The kinds whose lexemes an expectation may quote: names and reserved words. -/
def Kind.isWord : Kind → Bool
  | identifier | keyword _ => true
  | _ => false

/-- What comes into a tree of a token: its lexeme, or the text that is quoted in it. -/
def Token.content (token : Token) : String :=
  if token.kind = .text then unwrapped token.lexeme else token.lexeme

/-- Expectations up to the words that they quote. -/
def Expectation.unquoted : Expectation → Expectation
  | statementNotWord _ => statementNotWord ""
  | assignAfter _ => assignAfter ""
  | macroClose _ => macroClose ""
  | e => e

/-- **Expectations that are the same** but for the words that they quote, which are related. -/
inductive Expectation.Requoted (words : String → String → Prop) : Expectation → Expectation → Prop
  | refl (e : Expectation) : Requoted words e e
  | statementNotWord {word word' : String} :
    words word word' → Requoted words (.statementNotWord word) (.statementNotWord word')
  | assignAfter {name name' : String} :
    words name name' → Requoted words (.assignAfter name) (.assignAfter name')
  | macroClose {name name' : String} :
    words name name' → Requoted words (.macroClose name) (.macroClose name')

namespace Expectation.Requoted

variable {words : String → String → Prop} {e e' : Expectation}

theorem unquoted (h : Requoted words e e') : e.unquoted = e'.unquoted := by
  cases h <;> rfl

/-- With the same words the expectation is the same. -/
theorem eq (h : Requoted Eq e e') : e = e' := by
  cases h with
  | refl => rfl
  | statementNotWord hword => exact congrArg Expectation.statementNotWord hword
  | assignAfter hname => exact congrArg Expectation.assignAfter hname
  | macroClose hname => exact congrArg Expectation.macroClose hname

end Expectation.Requoted

variable (text : String → String) (words : String → String → Prop) (move : Location → Location)

/-- **Tokens of one kind whose texts, words and places are related.** -/
structure Token.Matches (a b : Token) : Prop where
  kind : b.kind = a.kind
  place : b.place = move a.place
  content : a.kind.isNamed = true → b.content = text a.content
  word : a.kind.isWord = true → words a.lexeme b.lexeme

/-- Lists of tokens that match one by one. -/
abbrev Aligned : List Token → List Token → Prop := List.Forall₂ (Token.Matches text words move)

namespace Parser

variable {text words move}
variable {α α' β β' γ γ' : Type}

/-- **Answers that are alike**, with tokens left that match. -/
inductive Alike (text : String → String) (words : String → String → Prop)
    (move : Location → Location) (R : α → β → Prop) : Reply α → Reply β → Prop where
  | ok {a : α} {b : β} {rest rest' : List Token} :
    R a b → Aligned text words move rest rest' →
    Alike text words move R (.ok a, rest) (.ok b, rest')
  | error {e e' : Expectation} {rest rest' : List Token} :
    e.Requoted words e' → Aligned text words move rest rest' →
    Alike text words move R (.error e, rest) (.error e', rest')

/-- **Parsers that answer alike** on lists that match. -/
structure Agrees (text : String → String) (words : String → String → Prop)
    (move : Location → Location) (R : α → β → Prop) (p : Parser α) (q : Parser β) : Prop where
  alike : ∀ {tokens others}, Aligned text words move tokens others →
    Alike text words move R (p.read tokens) (q.read others)

/-- A tree, and the tree with other texts and places. -/
abbrev Relabelled (text : String → String) (move : Location → Location) (n n' : Node) : Prop :=
  n' = n.relabel text move

variable {R : α → β → Prop} {S : α' → β' → Prop} {T : γ → γ' → Prop}
variable {p : Parser α} {q : Parser β} {p' : Parser α'} {q' : Parser β'}

theorem Agrees.cases (h : Agrees text words move R p q) {tokens others : List Token}
    (haligned : Aligned text words move tokens others) :
    (∃ a b rest rest', p.read tokens = (.ok a, rest) ∧ q.read others = (.ok b, rest') ∧
      R a b ∧ Aligned text words move rest rest') ∨
    ∃ e e' rest rest', p.read tokens = (.error e, rest) ∧ q.read others = (.error e', rest') ∧
      e.Requoted words e' ∧ Aligned text words move rest rest' := by
  have hread := h.alike haligned
  generalize p.read tokens = reply at hread ⊢
  generalize q.read others = reply' at hread ⊢
  cases hread with
  | ok hab hrest => exact .inl ⟨_, _, _, _, rfl, rfl, hab, hrest⟩
  | error he hrest => exact .inr ⟨_, _, _, _, rfl, rfl, he, hrest⟩

/-! ## Single parsers -/

theorem agrees_fail {e e' : Expectation} (h : e.Requoted words e') :
    Agrees text words move R (fail e) (fail e') where
  alike haligned := .error h haligned

theorem agrees_take (kind : Kind) {e e' : Expectation} (h : e.Requoted words e') :
    Agrees text words move (fun a b => a.Matches text words move b ∧ a.kind = kind) (take kind e)
      (take kind e') where
  alike haligned := by
    cases haligned with
    | nil => exact .error h .nil
    | cons hmatch hrest =>
      rw [read_take_cons, read_take_cons, hmatch.kind]
      split
      next hkind => exact .ok ⟨hmatch, hkind⟩ hrest
      next => exact .error h (.cons hmatch hrest)

/-! ## One parser after the other -/

theorem Agrees.map (h : Agrees text words move R p q) {f : α → α'} {g : β → β'}
    (hvalue : ∀ a b, R a b → S (f a) (g b)) : Agrees text words move S (p.map f) (q.map g) where
  alike haligned := by
    rw [read_map, read_map]
    rcases h.cases haligned with ⟨a, b, rest, rest', hp, hq, hab, hrest⟩ |
      ⟨e, e', rest, rest', hp, hq, he, hrest⟩
    · rw [hp, hq]
      exact .ok (hvalue _ _ hab) hrest
    · rw [hp, hq]
      exact .error he hrest

theorem Agrees.as (h : Agrees text words move R p q) {a : α'} {b : β'} (hvalue : S a b) :
    Agrees text words move S (p.as a) (q.as b) :=
  h.map fun _ _ _ => hvalue

theorem Agrees.bind (h : Agrees text words move R p q) {next : α → Parser α'}
    {next' : β → Parser β'}
    (hnext : ∀ a b, R a b → Agrees text words move S (next a) (next' b)) :
    Agrees text words move S (p >>= next) (q >>= next') where
  alike haligned := by
    rw [read_bind, read_bind]
    rcases h.cases haligned with ⟨a, b, rest, rest', hp, hq, hab, hrest⟩ |
      ⟨e, e', rest, rest', hp, hq, he, hrest⟩
    · rw [hp, hq]
      exact (hnext a b hab).alike hrest
    · rw [hp, hq]
      exact .error he hrest

/-- Lists that match start with tokens of the same kind. -/
theorem head?_any_of_aligned {tokens others : List Token}
    (h : Aligned text words move tokens others) (kind : Kind) :
    others.head?.any (·.kind == kind) = tokens.head?.any (·.kind == kind) := by
  cases h with
  | nil => rfl
  | cons hmatch _ => simp [hmatch.kind]

theorem Agrees.ifNext {yes no : Parser α} {yes' no' : Parser β}
    (hyes : Agrees text words move R yes yes') (hno : Agrees text words move R no no') (kind : Kind) :
    Agrees text words move R (ifNext kind yes no) (ifNext kind yes' no') where
  alike haligned := by
    rw [read_ifNext, read_ifNext, head?_any_of_aligned haligned]
    split
    · exact hyes.alike haligned
    · exact hno.alike haligned

/-- An optional part is there in both or in none. -/
theorem Agrees.thenIf {f : α' → β'} (hp : Agrees text words move R p q)
    (hq : Agrees text words move (fun c d => d = f c) p' q') (kind : Kind) :
    Agrees text words move (fun a b => R a.1 b.1 ∧ b.2 = a.2.map f) (p.thenIf kind p')
      (q.thenIf kind q') where
  alike haligned := by
    rcases hp.cases haligned with ⟨a, b, rest, rest', hread, hread', hab, hrest⟩ |
      ⟨e, e', rest, rest', hread, hread', he, hrest⟩
    · rw [read_thenIf_ok hread, read_thenIf_ok hread', head?_any_of_aligned hrest]
      split
      · have htail : Aligned text words move rest.tail rest'.tail := by
          cases hrest with
          | nil => exact .nil
          | cons _ hrest => exact hrest
        rcases hq.cases htail with ⟨c, d, behind, behind', hread, hread', hcd, hbehind⟩ |
          ⟨e, e', behind, behind', hread, hread', he, hbehind⟩
        · rw [hread, hread']
          exact .ok ⟨hab, congrArg some hcd⟩ hbehind
        · rw [hread, hread']
          exact .error he hbehind
      · exact .ok ⟨hab, rfl⟩ hrest
    · rw [read_thenIf, read_thenIf, hread, hread']
      exact .error he hrest

/-! ## Repetition -/

section While

variable {test : Kind → Bool} {combine : α → Token → α' → α} {combine' : β → Token → β' → β}

/-- The loop behind the first operand, by induction on what is left. -/
theorem alike_readWhile (hq : Agrees text words move S p' q')
    (hcombine : ∀ a b token token' c d, R a b → token.Matches text words move token' →
      test token.kind = true → S c d → R (combine a token c) (combine' b token' d))
    {tokens others : List Token} (haligned : Aligned text words move tokens others) {a : α} {b : β}
    (hab : R a b) :
    Alike text words move R (readWhile test p' combine a tokens)
      (readWhile test q' combine' b others) := by
  cases haligned with
  | nil => simpa using .ok hab .nil
  | @cons token token' rest rest' hmatch hrest =>
    rw [readWhile_cons, readWhile_cons, hmatch.kind]
    split
    next htest =>
      rcases hq.cases hrest with ⟨c, d, behind, behind', hread, hread', hcd, hbehind⟩ |
        ⟨e, e', behind, behind', hread, hread', he, hbehind⟩
      · have hless := length_read hread
        rw [hread, hread']
        exact alike_readWhile hq hcombine hbehind (hcombine _ _ _ _ _ _ hab hmatch htest hcd)
      · rw [hread, hread']
        exact .error he hbehind
    next => exact .ok hab (.cons hmatch hrest)
termination_by tokens.length
decreasing_by
  simp only [List.length_cons]
  omega

theorem Agrees.foldWhile (hp : Agrees text words move R p q) (hq : Agrees text words move S p' q')
    (hcombine : ∀ a b token token' c d, R a b → token.Matches text words move token' →
      test token.kind = true → S c d → R (combine a token c) (combine' b token' d)) :
    Agrees text words move R (p.foldWhile test p' combine) (q.foldWhile test q' combine') where
  alike haligned := by
    rw [read_foldWhile, read_foldWhile]
    rcases hp.cases haligned with ⟨a, b, rest, rest', hread, hread', hab, hrest⟩ |
      ⟨e, e', rest, rest', hread, hread', he, hrest⟩
    · rw [hread, hread']
      exact alike_readWhile hq hcombine hrest hab
    · rw [hread, hread']
      exact .error he hrest

end While

section Until

variable {close : Kind} {missing : Expectation} {step : α → Parser α} {step' : β → Parser β}

/-- The loop up to the closing token, by induction on what is left. -/
theorem alike_readUntil (hstep : ∀ a b, R a b → Agrees text words move R (step a) (step' b))
    {tokens others : List Token} (haligned : Aligned text words move tokens others) {a : α} {b : β}
    (hab : R a b) :
    Alike text words move R (readUntil close missing step a tokens)
      (readUntil close missing step' b others) := by
  cases haligned with
  | nil => simpa using .error (.refl _) .nil
  | @cons token token' rest rest' hmatch hrest =>
    rw [readUntil_cons, readUntil_cons, hmatch.kind]
    split
    next => exact .ok hab hrest
    next =>
      rcases (hstep a b hab).cases (.cons hmatch hrest) with
        ⟨c, d, behind, behind', hread, hread', hcd, hbehind⟩ |
        ⟨e, e', behind, behind', hread, hread', he, hbehind⟩
      · have hless := length_read hread
        rw [hread, hread']
        exact alike_readUntil hstep hbehind hcd
      · rw [hread, hread']
        exact .error he hbehind
termination_by tokens.length
decreasing_by exact hless

theorem Agrees.foldUntil (hstep : ∀ a b, R a b → Agrees text words move R (step a) (step' b))
    {a : α} {b : β} (hab : R a b) :
    Agrees text words move R (foldUntil close missing step a) (foldUntil close missing step' b) :=
  ⟨fun haligned => alike_readUntil hstep haligned hab⟩

end Until

theorem Agrees.manyUntil {f : α → β} (h : Agrees text words move (fun a b => b = f a) p q)
    {close : Kind} {missing : Expectation} :
    Agrees text words move (fun items others => others = items.map f) (manyUntil close missing p)
      (manyUntil close missing q) := by
  refine Agrees.map (R := fun items others => others = items.map f)
    (Agrees.foldUntil (fun items others hread => ?_) rfl) fun items others hread => ?_
  · exact h.map fun a b hab => by rw [hread, hab, List.map_cons]
  · rw [hread, List.map_reverse]

theorem agrees_skipThrough {close : Kind} {missing missing' : Expectation}
    (h : missing.Requoted words missing') :
    Agrees text words move (fun _ _ => True) (skipThrough close missing)
      (skipThrough close missing') where
  alike haligned := by
    induction haligned with
    | nil => exact .error h .nil
    | cons hmatch hrest ih =>
      rw [read_skipThrough_cons, read_skipThrough_cons, hmatch.kind]
      split
      · exact .ok trivial hrest
      · exact ih

/-! ## Names and marks -/

/-- Names, numbers and operators that match are relabelled. -/
theorem lexeme_of_named {a b : Token} (h : a.Matches text words move b)
    (hnamed : a.kind.isNamed = true) (htext : a.kind ≠ .text) : b.lexeme = text a.lexeme := by
  have hcontent := h.content hnamed
  rwa [Token.content, Token.content, h.kind, if_neg htext, if_neg htext] at hcontent

theorem lexeme_of_identifier {a b : Token} (h : a.Matches text words move b)
    (hkind : a.kind = .identifier) : b.lexeme = text a.lexeme :=
  lexeme_of_named h (by rw [hkind]; rfl) (by simp [hkind])

theorem lexeme_of_operator {a b : Token} (h : a.Matches text words move b) {op : Operator}
    (hkind : a.kind = .operator op) : b.lexeme = text a.lexeme :=
  lexeme_of_named h (by rw [hkind]; rfl) (by simp [hkind])

/-- What a mark or a word closes is alike if it is alike in front of it. -/
theorem agrees_closing (kind : Kind) (e : Expectation) {a : α} {b : β} (h : R a b) :
    Agrees text words move R ((take kind e).as a) ((take kind e).as b) :=
  (agrees_take kind (.refl _)).as h

/-! ## Expressions -/

section Expression

variable {unary unary' inner inner' group group' : Parser Node}

theorem Agrees.chain (h : Agrees text words move (Relabelled text move) unary unary')
    (level : Level) :
    Agrees text words move (Relabelled text move) (chain level unary) (chain level unary') := by
  refine h.foldWhile h fun left left' token token' right right' hleft hmatch htest hright => ?_
  obtain ⟨op, hkind⟩ : ∃ op, token.kind = .operator op := by
    cases hkind : token.kind with
    | operator op => exact ⟨op, rfl⟩
    | _ => simp [Level.has, hkind] at htest
  rw [Relabelled, hleft, hright, lexeme_of_operator hmatch hkind, hmatch.place, Node.relabel]

theorem Agrees.expressionOver (h : Agrees text words move (Relabelled text move) unary unary') :
    Agrees text words move (Relabelled text move) (expressionOver unary) (expressionOver unary') :=
  (((h.chain .factor).chain .term).chain .comparison).chain .equality

theorem Agrees.primaryWith (h : Agrees text words move (Relabelled text move) inner inner') :
    Agrees text words move (Relabelled text move) (primaryWith inner) (primaryWith inner') where
  alike haligned := by
    cases haligned with
    | nil => exact .error (.refl _) .nil
    | @cons token token' rest rest' hmatch hrest =>
      rw [read_primaryWith_cons, read_primaryWith_cons, hmatch.kind]
      split
      next hkind =>
        have hlexeme := lexeme_of_named hmatch (by rw [hkind]; rfl) (by simp [hkind])
        refine .ok ?_ hrest
        rw [Relabelled, Node.relabel, hlexeme, hmatch.place]
      next hkind =>
        have hcontent := hmatch.content (by rw [hkind]; rfl)
        rw [Token.content, Token.content, hmatch.kind, if_pos hkind, if_pos hkind] at hcontent
        refine .ok ?_ hrest
        rw [Relabelled, Node.relabel, hcontent, hmatch.place]
      next hkind =>
        refine .ok ?_ hrest
        rw [Relabelled, Node.relabel, lexeme_of_identifier hmatch hkind, hmatch.place]
      next =>
        exact (h.bind fun _ _ hvalue => agrees_closing _ _ hvalue).alike hrest
      next => exact .error (.refl _) (.cons hmatch hrest)

theorem Agrees.unaryWith (hinner : Agrees text words move (Relabelled text move) inner inner')
    (hgroup : Agrees text words move (Relabelled text move) group group') :
    Agrees text words move (Relabelled text move) (unaryWith inner group)
      (unaryWith inner' group') where
  alike haligned := by
    cases haligned with
    | nil => exact .error (.refl _) .nil
    | @cons token token' rest rest' hmatch hrest =>
      rw [read_unaryWith_cons, read_unaryWith_cons, hmatch.kind]
      split
      next htest =>
        obtain ⟨op, hkind⟩ : ∃ op, token.kind = .operator op := by
          rcases isPrefixOperator_iff.1 htest with hkind | hkind <;> exact ⟨_, hkind⟩
        refine (hinner.map fun operand operand' hoperand => ?_).alike hrest
        rw [Relabelled, hoperand, lexeme_of_operator hmatch hkind, hmatch.place, Node.relabel]
      next => exact hgroup.primaryWith.alike (.cons hmatch hrest)

end Expression

/-- **Operands are read alike**, by induction on the room. -/
theorem agrees_unary :
    ∀ room, Agrees text words move (Relabelled text move) (unary room) (unary room)
  | 0 => by
    rw [unary_zero]
    exact (agrees_fail (.refl _)).unaryWith (agrees_fail (.refl _))
  | room + 1 => by
    rw [unary_succ]
    exact (agrees_unary room).unaryWith (agrees_unary room).expressionOver

/-- **Expressions are read alike.** -/
theorem agrees_expression (room : Nat) :
    Agrees text words move (Relabelled text move) (expression room) (expression room) :=
  (agrees_unary room).expressionOver

end Parser

end ScriptFrontend
