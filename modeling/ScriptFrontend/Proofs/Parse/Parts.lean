import ScriptFrontend.Proofs.Parse.Expression

/-!
# Proofs/Parse/Parts — the parsers of the parts of statements read them

The parts that only hold names and expressions come first, then those that hold statements, which
are tied to the grammar under the assumption `Inner.Reads`: the parsers given for expressions and
blocks read the expressions and the blocks of the grammar.

Lists are read into an accumulator, the last item first, so each repetition has a lemma that turns
its `Language.Until` round (`manyUntil_iff`, `entriesUntil_iff`).
-/

namespace ScriptFrontend

open Grammar

/-- The parsers of what statements contain read the expressions and blocks of the grammar. -/
structure Inner.Reads (inner : Inner) (room : Nat) : Prop where
  expression : inner.expression.Reads room Expr joinsOperands
  block : ∀ construct, (inner.block construct).Reads room (Block Statement) nothing

namespace Language

variable {α : Type}

/-- Words of a language, one after the other. -/
inductive Many (L : Language α) : List Token → List α → Prop where
  | nil : Many L [] []
  | cons {front back : List Token} {a : α} {items : List α} :
    L front a → Many L back items → Many L (front ++ back) (a :: items)

/-- Items in front of a closing token are accumulated in reverse. -/
theorem until_iff {close : Kind} {L : Language α} {read all : List α} {word : List Token} :
    Until close (fun read => L.map (· :: read)) read word all ↔
      ∃ items, Language.closed close (Many L) word items ∧ all = items.reverse ++ read := by
  constructor
  · intro h
    induction h with
    | @close t read hkind => exact ⟨[], ⟨[], t, .nil, hkind, rfl⟩, rfl⟩
    | step hfront _ ih =>
      obtain ⟨a, hfront, rfl⟩ := hfront
      obtain ⟨items, ⟨tokens, closing, htokens, hkind, rfl⟩, rfl⟩ := ih
      exact ⟨a :: items, ⟨_, closing, .cons hfront htokens, hkind, by simp⟩, by simp⟩
  · rintro ⟨items, ⟨tokens, closing, htokens, hkind, rfl⟩, rfl⟩
    induction htokens generalizing read with
    | nil => exact .close hkind
    | @cons front back a items hfront _ ih =>
      rw [List.append_assoc, List.reverse_cons, List.append_assoc]
      exact .step ⟨a, hfront, rfl⟩ ih

end Language

namespace Parser

variable {α : Type} {A : Kind → Prop} {inner : Inner} {room : Nat}

theorem Reads.manyUntil {item : Parser α} {L : Language α} {close : Kind} (h : Reads item room L A)
    (hL : ∀ word a, L word a → StartsWith (fun kind => kind ≠ close ∧ ¬ A kind) word)
    (hclose : ¬ A close) (missing : Expectation) (hends : missing ≠ .shallower ∧ close ≠ .finish) :
    Reads (manyUntil close missing item) room (.closed close (.Many L)) nothing := by
  refine ((Reads.foldUntil (fun read => h.map (· :: read)) ?_ hclose [] hends).map _).congr
    fun word items => ⟨?_, ?_⟩
  · rintro _ word _ ⟨a, hword, -⟩
    exact hL word a hword
  · rintro ⟨all, hall, rfl⟩
    obtain ⟨items, hitems, rfl⟩ := Language.until_iff.1 hall
    simpa using hitems
  · intro hitems
    exact ⟨items.reverse, Language.until_iff.2 ⟨items, hitems, by simp⟩, by simp⟩

/-! ## Names and expressions -/

/-- `name = value;` behind the word that introduces it. -/
theorem reads_initBody (h : inner.Reads room) {head : Token} (hhead : head.kind = .keyword .init) :
    Reads (initBody inner head) room (fun word node => Statement .init (head :: word) node) nothing := by
  refine Reads.congr (Reads.behind (by simp) fun _ _ => Reads.behind (by simp) fun _ _ =>
    h.expression.closedBy (not_joinsOperands_mark _) _ _ (by simp)) fun word node => ⟨?_, ?_⟩
  · rintro ⟨name, _, hname, ⟨equals, _, hequals, ⟨value, _, semicolon, hvalue, hsemi, rfl, rfl⟩,
      rfl⟩, rfl⟩
    exact .init hhead hname hequals hvalue hsemi
  · intro h
    cases h with
    | init _ hname hequals hvalue hsemi =>
      exact ⟨_, _, hname, ⟨_, _, hequals, ⟨_, _, _, hvalue, hsemi, rfl, rfl⟩, rfl⟩, rfl⟩

/-- An expression in parentheses. -/
theorem reads_parenthesised (h : inner.Reads room) (opening closing : Expectation)
    (hexpected : opening ≠ .shallower ∧ closing ≠ .shallower) :
    Reads (parenthesised inner opening closing) room
      (.behind (.mark .leftParen) fun _ => .closedBy .rightParen id) nothing :=
  Reads.behind ⟨hexpected.1, by simp⟩ fun _ _ =>
    h.expression.closedBy (not_joinsOperands_mark _) _ _ hexpected.2

/-- An optional expression in front of a mark that starts none. -/
theorem reads_optionalUntil (h : inner.Reads room) {close : Mark}
    (hclose : startsExpression (.mark close) = false) (missing : Expectation)
    (hmissing : missing ≠ .shallower) :
    Reads (optionalUntil inner close missing) room
      (.closed (.mark close) OptionalExpr) nothing := by
  refine Reads.congr (Reads.ifNext ((reads_take _ _ ⟨hmissing, by simp⟩).map _)
    (h.expression.closedBy (not_joinsOperands_mark _) _ _ hmissing) ?_ ?_) fun word o => ⟨?_, ?_⟩
  · rintro _ _ ⟨t, ⟨rfl, hkind⟩, -⟩
    exact ⟨t, [], rfl, hkind⟩
  · rintro _ _ ⟨tokens, node, closing, htokens, -, -, rfl⟩
    refine (htokens.startsWith.imp fun kind hstarts hkind => ?_).append _
    simp [hkind, hclose] at hstarts
  · rintro (⟨t, ⟨rfl, hkind⟩, rfl⟩ | ⟨tokens, node, closing, htokens, hkind, rfl, rfl⟩)
    · exact ⟨[], t, .absent, hkind, rfl⟩
    · exact ⟨tokens, closing, .present htokens, hkind, rfl⟩
  · rintro ⟨_, closing, htokens | htokens, hkind, rfl⟩
    · exact .inl ⟨closing, ⟨rfl, hkind⟩, rfl⟩
    · exact .inr ⟨_, _, closing, htokens, hkind, rfl, rfl⟩

/-- The first part of a loop header. -/
theorem reads_forInitializer (h : inner.Reads room) :
    Reads (forInitializer inner) room (LoopStart Statement) nothing := by
  refine Reads.congr (Reads.ifNext
    (Reads.behind (by simp) fun head hhead => (reads_initBody h hhead).map some)
    ((reads_take _ _ (by simp)).map _) ?_ ?_) fun word o => ⟨?_, ?_⟩
  · rintro _ _ ⟨head, rest, hhead, -, rfl⟩
    exact ⟨head, rest, rfl, hhead⟩
  · rintro _ _ ⟨t, ⟨rfl, hkind⟩, -⟩
    exact ⟨t, [], rfl, by simp [hkind]⟩
  · rintro (⟨head, rest, hhead, ⟨node, hnode, rfl⟩, rfl⟩ | ⟨t, ⟨rfl, hkind⟩, rfl⟩)
    · exact .declaration hnode
    · exact .empty hkind
  · rintro (hnode | hkind)
    · obtain ⟨head, rest, rfl, hhead⟩ := hnode.startsWith
      exact .inl ⟨head, rest, hhead, ⟨_, hnode, rfl⟩, rfl⟩
    · exact .inr ⟨_, ⟨rfl, hkind⟩, rfl⟩

/-- Names are read in reverse. -/
theorem joined_names_iff {word : List Token} {names : List String} :
    Language.Joined ((Language.token .identifier).map fun name => [name.lexeme])
      (· == .mark .comma) (.token .identifier) (fun names _ name => name.lexeme :: names)
      word names ↔ Names word names.reverse := by
  constructor
  · intro h
    induction h with
    | first h =>
      obtain ⟨name, ⟨rfl, hname⟩, rfl⟩ := h
      exact .one hname
    | more _ hcomma hback ih =>
      obtain ⟨rfl, hname⟩ := hback
      rw [List.reverse_cons]
      exact .more ih (by simpa using hcomma) hname
  · intro h
    generalize hall : names.reverse = all at h
    induction h generalizing names with
    | one hname =>
      obtain rfl : names = _ := List.reverse_eq_iff.1 hall
      exact .first ⟨_, ⟨rfl, hname⟩, rfl⟩
    | more _ hcomma hname ih =>
      obtain rfl : names = _ := List.reverse_eq_iff.1 hall
      rw [List.reverse_append]
      exact .more (ih (List.reverse_reverse _)) (by simp [hcomma]) ⟨rfl, hname⟩

/-- One or more names; a comma makes the list go on. -/
theorem reads_parameterNames :
    Reads parameterNames room Names (fun kind => kind = .mark .comma) := by
  refine Reads.mono (A := fun kind => (kind == .mark .comma) = true ∨ nothing kind)
    (Reads.congr ((((reads_take _ _ (by simp)).map _).foldWhile (reads_take _ _ (by simp))
      fun _ _ => id).map _) fun word names => ⟨?_, ?_⟩) ?_
  · rintro ⟨names, hnames, rfl⟩
    exact joined_names_iff.1 hnames
  · intro hnames
    exact ⟨names.reverse, joined_names_iff.2 (by simpa using hnames), List.reverse_reverse _⟩
  · rintro kind (h | h)
    · simpa using h
    · exact h.elim

theorem names_startsWith {word : List Token} {names : List String} (h : Names word names) :
    StartsWith (· = .identifier) word := by
  induction h with
  | one hname => exact ⟨_, [], rfl, hname⟩
  | more _ _ _ ih => exact ih.append _

/-- Parameters and the parenthesis behind them. -/
theorem reads_parametersUntil :
    Reads parametersUntil room
      (.closed (.mark .rightParen) Parameters) nothing := by
  refine Reads.congr (Reads.ifNext ((reads_take _ _ (by simp)).map _)
    (reads_parameterNames.bindOpen (fun _ _ _ => (reads_take _ _ (by simp)).map _) ?_) ?_ ?_)
    fun word names => ⟨?_, ?_⟩
  · rintro _ _ _ ⟨t, ⟨rfl, hkind⟩, -⟩ rest
    exact StartsWith.stops ⟨t, [], rfl, by simp [hkind]⟩ rest
  · rintro _ _ ⟨t, ⟨rfl, hkind⟩, -⟩
    exact ⟨t, [], rfl, hkind⟩
  · rintro _ _ ⟨tokens, names, _, htokens, -, rfl⟩
    exact ((names_startsWith htokens).imp fun kind h => by simp [h]).append _
  · rintro (⟨t, ⟨rfl, hkind⟩, rfl⟩ | ⟨tokens, names, _, htokens, ⟨t, ⟨rfl, hkind⟩, rfl⟩, rfl⟩)
    · exact ⟨[], t, .none, hkind, rfl⟩
    · exact ⟨tokens, t, .some htokens, hkind, rfl⟩
  · rintro ⟨_, closing, _ | htokens, hkind, rfl⟩
    · exact .inl ⟨closing, ⟨rfl, hkind⟩, rfl⟩
    · exact .inr ⟨_, _, _, htokens, ⟨closing, ⟨rfl, hkind⟩, rfl⟩, rfl⟩

/-- A name and its semicolon. -/
theorem reads_structField :
    Reads structField room (.behind .identifier fun name =>
      (Language.token (.mark .semicolon)).map fun _ => name.lexeme) nothing :=
  Reads.behind (by simp) fun _ _ => (reads_take _ _ (by simp)).map _

theorem many_fields_iff {word : List Token} {names : List String} :
    Language.Many (.behind .identifier fun name =>
      (Language.token (.mark .semicolon)).map fun _ => name.lexeme) word names ↔
      Fields word names := by
  constructor
  · intro h
    induction h with
    | nil => exact .nil
    | cons hfield _ ih =>
      obtain ⟨name, _, hname, ⟨semicolon, ⟨rfl, hsemi⟩, rfl⟩, rfl⟩ := hfield
      exact .cons hname hsemi ih
  · intro h
    induction h with
    | nil => exact .nil
    | @cons name semicolon tokens _ hname hsemi _ ih =>
      change Language.Many _ ([name, semicolon] ++ tokens) _
      exact .cons ⟨name, _, hname, ⟨semicolon, ⟨rfl, hsemi⟩, rfl⟩, rfl⟩ ih

/-- The fields of a structure and the brace behind them. -/
theorem reads_structFields :
    Reads (manyUntil (.mark .rightBrace) .structClose structField) room
      (.closed (.mark .rightBrace) Fields) nothing := by
  refine (reads_structField.manyUntil ?_ id _ (by simp)).congr fun word names => ⟨?_, ?_⟩
  · rintro _ _ ⟨name, rest, hname, -, rfl⟩
    exact ⟨name, rest, rfl, by simp [hname], id⟩
  · rintro ⟨tokens, closing, htokens, hkind, rfl⟩
    exact ⟨tokens, closing, many_fields_iff.1 htokens, hkind, rfl⟩
  · rintro ⟨tokens, closing, htokens, hkind, rfl⟩
    exact ⟨tokens, closing, many_fields_iff.2 htokens, hkind, rfl⟩

/-! ## Entries of a match -/

/-- A case, added to the entries read so far. -/
def caseOf (read : Entries) : Language Entries := fun word all =>
  ∃ (head : Token) (pattern : List Token) (colon : Token) (body : List Token) (node : Node)
    (nodes : List Node), head.kind = .keyword .case ∧ Expr pattern node ∧
    colon.kind = .mark .colon ∧ Block Statement body nodes ∧
    { read with cases := .matchCase node nodes head.place :: read.cases } = all ∧
    word = head :: (pattern ++ colon :: body)

/-- A default, added to the entries read so far. -/
def defaultOf (read : Entries) : Language Entries := fun word all =>
  ∃ (head colon : Token) (body : List Token) (nodes : List Node),
    head.kind = .keyword .default ∧ colon.kind = .mark .colon ∧ Block Statement body nodes ∧
    { read with defaultBody := some nodes } = all ∧
    word = head :: colon :: body

/-- An entry: a case, or a default where there is none yet. -/
def entryOf (read : Entries) : Language Entries := fun word all =>
  caseOf read word all ∨ read.defaultBody = none ∧ defaultOf read word all

theorem caseOf_startsWith {read all : Entries} {word : List Token} (h : caseOf read word all) :
    StartsWith (· = .keyword .case) word := by
  obtain ⟨head, _, _, _, _, _, hhead, -, -, -, -, rfl⟩ := h
  exact ⟨head, _, rfl, hhead⟩

theorem defaultOf_startsWith {read all : Entries} {word : List Token}
    (h : defaultOf read word all) : StartsWith (· = .keyword .default) word := by
  obtain ⟨head, _, _, _, hhead, -, -, -, rfl⟩ := h
  exact ⟨head, _, rfl, hhead⟩

theorem entryOf_startsWith {read all : Entries} {word : List Token} (h : entryOf read word all) :
    StartsWith (fun kind => kind ≠ .mark .rightBrace ∧ ¬ nothing kind) word := by
  rcases h with h | ⟨-, h⟩
  · exact (caseOf_startsWith h).imp fun kind hkind => ⟨by simp [hkind], id⟩
  · exact (defaultOf_startsWith h).imp fun kind hkind => ⟨by simp [hkind], id⟩

theorem reads_caseEntry (h : inner.Reads room) (read : Entries) :
    Reads (caseEntry inner read) room (caseOf read) nothing := by
  refine Reads.congr (Reads.behind (by simp) fun _ _ => h.expression.bindOpen
    (fun _ _ _ => Reads.behind (by simp) fun _ _ => (h.block _).map _) ?_) fun word all => ⟨?_, ?_⟩
  · rintro _ _ _ ⟨colon, _, hcolon, -, rfl⟩ rest
    exact StartsWith.stops ⟨colon, _, rfl, hcolon ▸ not_joinsOperands_mark _⟩ rest
  · rintro ⟨head, _, hhead, ⟨pattern, node, _, hpattern, ⟨colon, body, hcolon, ⟨nodes, hbody, hall⟩,
      rfl⟩, rfl⟩, rfl⟩
    exact ⟨head, pattern, colon, body, node, nodes, hhead, hpattern, hcolon, hbody, hall, rfl⟩
  · rintro ⟨head, pattern, colon, body, node, nodes, hhead, hpattern, hcolon, hbody, hall, rfl⟩
    exact ⟨head, _, hhead, ⟨pattern, node, _, hpattern, ⟨colon, body, hcolon, ⟨nodes, hbody, hall⟩,
      rfl⟩, rfl⟩, rfl⟩

theorem reads_defaultEntry (h : inner.Reads room) {read : Entries} (hnone : read.defaultBody = none) :
    Reads (defaultEntry inner read) room (defaultOf read) nothing := by
  rw [defaultEntry, if_neg (by simp [hnone])]
  refine Reads.congr (Reads.behind (by simp) fun _ _ => Reads.behind (by simp) fun _ _ =>
    (h.block _).map _) fun word all => ⟨?_, ?_⟩
  · rintro ⟨head, _, hhead, ⟨colon, body, hcolon, ⟨nodes, hbody, hall⟩, rfl⟩, rfl⟩
    exact ⟨head, colon, body, nodes, hhead, hcolon, hbody, hall, rfl⟩
  · rintro ⟨head, colon, body, nodes, hhead, hcolon, hbody, hall, rfl⟩
    exact ⟨head, _, hhead, ⟨colon, body, hcolon, ⟨nodes, hbody, hall⟩, rfl⟩, rfl⟩

/-- One more entry.  Behind a default, a second one is refused like any other token. -/
theorem reads_matchEntry (h : inner.Reads room) (read : Entries) :
    Reads (matchEntry inner read) room (entryOf read) nothing := by
  have hcase := reads_caseEntry h read
  have head (word all) (hword : caseOf read word all) := caseOf_startsWith hword
  rcases hdefault : read.defaultBody with _ | nodes
  · have hrest : Reads (ifNext (.keyword .default) (defaultEntry inner read) (fail .matchEntry)) room
        (defaultOf read) nothing :=
      (reads_defaultEntry h hdefault).ifNextOnly (refuses_fail _) (local_fail (by simp))
        fun _ _ => defaultOf_startsWith
    refine (hcase.ifNext hrest head fun word all hword => ?_).congr fun word all => ?_
    · exact (defaultOf_startsWith hword).imp fun kind hkind => by simp [hkind]
    · simp [Language.either, entryOf, hdefault]
  · have hrest : Refuses (ifNext (.keyword .default) (defaultEntry inner read) (fail .matchEntry)) := by
      rw [defaultEntry, if_pos (by simp [hdefault])]
      exact (refuses_fail _).ifNext (refuses_fail _) _
    have hlocal : Local (ifNext (.keyword .default) (defaultEntry inner read) (fail .matchEntry))
        room := by
      rw [defaultEntry, if_pos (by simp [hdefault])]
      exact (local_fail (by simp)).ifNext (local_fail (by simp)) _
    refine (hcase.ifNextOnly hrest hlocal head).congr fun word all => ?_
    simp [entryOf, hdefault]

/-- The entries up to and with the closing brace are added to those read so far. -/
theorem entriesUntil_iff {read all : Entries} {word : List Token} :
    Language.Until (.mark .rightBrace) entryOf read word all ↔
      ∃ (tokens : List Token) (cases : List Node) (defaultBody : Option (List Node))
        (closing : Token),
        Grammar.Entries Statement tokens cases defaultBody ∧ closing.kind = .mark .rightBrace ∧
        word = tokens ++ [closing] ∧ all.cases = cases.reverse ++ read.cases ∧
        (read.defaultBody = none ∧ all.defaultBody = defaultBody ∨
          defaultBody = none ∧ all.defaultBody = read.defaultBody) := by
  constructor
  · intro h
    induction h with
    | close hkind => exact ⟨[], [], none, _, .nil, hkind, rfl, rfl, .inr ⟨rfl, rfl⟩⟩
    | step hentry _ ih =>
      obtain ⟨tokens, cases, defaultBody, closing, htokens, hkind, rfl, hcases, hdefault⟩ := ih
      rcases hentry with ⟨head, pattern, colon, body, node, nodes, hhead, hpattern, hcolon, hbody,
        rfl, rfl⟩ | ⟨hnone, head, colon, body, nodes, hhead, hcolon, hbody, rfl, rfl⟩
      · exact ⟨_, _, _, closing, .case hhead hpattern hcolon hbody htokens, hkind, by simp,
          by simp [hcases], hdefault⟩
      · obtain ⟨rfl, hsome⟩ := hdefault.resolve_left (by simp)
        exact ⟨_, _, _, closing, .default hhead hcolon hbody htokens, hkind, by simp, hcases,
          .inl ⟨hnone, hsome⟩⟩
  · rintro ⟨tokens, cases, defaultBody, closing, htokens, hkind, rfl, hcases, hdefault⟩
    induction htokens generalizing read with
    | nil =>
      obtain ⟨cases, defaultBody⟩ := all
      obtain rfl : cases = read.cases := hcases
      obtain rfl : defaultBody = read.defaultBody := by
        rcases hdefault with ⟨hread, hall⟩ | ⟨-, hall⟩
        · exact hall.trans hread.symm
        · exact hall
      exact .close hkind
    | case hhead hpattern hcolon hbody _ ih =>
      have hstep : Language.Until (.mark .rightBrace) entryOf read _ all :=
        .step (.inl ⟨_, _, _, _, _, _, hhead, hpattern, hcolon, hbody, rfl, rfl⟩)
          (ih (by simpa using hcases) hdefault)
      simpa using hstep
    | default hhead hcolon hbody _ ih =>
      obtain ⟨hnone, hall⟩ := hdefault.resolve_right (by simp)
      have hstep : Language.Until (.mark .rightBrace) entryOf read _ all :=
        .step (.inr ⟨hnone, _, _, _, _, hhead, hcolon, hbody, rfl, rfl⟩)
          (ih hcases (.inr ⟨rfl, hall⟩))
      simpa using hstep

/-- The entries of a match and the brace behind them. -/
theorem reads_matchEntries (h : inner.Reads room) :
    Reads (foldUntil (.mark .rightBrace) .matchBodyClose (matchEntry inner) ⟨[], none⟩) room
      (.closed (.mark .rightBrace) fun tokens all =>
        Grammar.Entries Statement tokens all.cases.reverse all.defaultBody) nothing := by
  refine ((Reads.foldUntil (reads_matchEntry h) (fun _ _ _ => entryOf_startsWith) id _
    (by simp))).congr fun word all => entriesUntil_iff.trans ⟨?_, ?_⟩
  · rintro ⟨tokens, cases, defaultBody, closing, htokens, hkind, rfl, hcases, hdefault⟩
    obtain rfl : all.defaultBody = defaultBody := by
      rcases hdefault with ⟨-, hall⟩ | ⟨rfl, hall⟩
      · exact hall
      · exact hall
    exact ⟨tokens, closing, by simpa [hcases] using htokens, hkind, rfl⟩
  · rintro ⟨tokens, closing, htokens, hkind, rfl⟩
    exact ⟨tokens, _, _, closing, htokens, hkind, rfl, by simp, .inl ⟨rfl, rfl⟩⟩

end Parser

end ScriptFrontend
