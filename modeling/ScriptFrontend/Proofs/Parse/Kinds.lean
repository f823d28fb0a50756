import ScriptFrontend.Proofs.Parse.Alike
import ScriptFrontend.Proofs.Parse.Bodies

/-!
# Proofs/Parse/Kinds — kinds alone steer the parser

Whether a list of tokens is a program, and of which form, is a matter of its kinds.  `labels` is the
list of given kinds whose tokens are spelled by their own indices and stand in the lines of their
indices.  Its tree is the **skeleton** of the trees of all lists of these kinds: a tree over
indices, from which the tree of a list is obtained by reading the texts and the places off the
tokens at the indices (`Node.readOff`).

    labels kinds  ─ parseProgram →  skeleton
      │ every list of the kinds       │ readOff tokens
    tokens        ─ parseProgram →  tree

The labels match every list of their kinds token by token, so they are read alike
(`aligned_labels`), and what stands in the bodies of macro regions is not seen
(`statements_visible`).  `parseProgram_of_kinds` puts both together.
-/

namespace ScriptFrontend

/-! ## Tokens spelled by their indices -/

/-- The token of a kind at an index, spelled by the index. -/
def label (i : Nat) (kind : Kind) : Token :=
  ⟨kind, if kind = .text then "\"" ++ i.repr ++ "\"" else i.repr, ⟨i, 1⟩⟩

/-- **The list of the kinds whose tokens are spelled by their indices.** -/
def labels (kinds : List Kind) : List Token := kinds.mapIdx label

/-- What the token at a spelled index brings into a tree. -/
def contentAt (tokens : List Token) (index : String) : String :=
  ((index.toNat?.bind (tokens[·]?)).map Token.content).getD ""

/-- The place of the token at the index that is a line. -/
def placeAt (tokens : List Token) (index : Location) : Location :=
  (tokens[index.line.toNat]?.map (·.place)).getD .unplaced

/-- **A tree over indices, read off tokens.** -/
def Node.readOff (tokens : List Token) : Node → Node :=
  Node.relabel (contentAt tokens) (placeAt tokens)

theorem unwrapped_quotes (text : String) : unwrapped ("\"" ++ text ++ "\"") = text := by
  simp [unwrapped]

@[simp] theorem content_label (i : Nat) (kind : Kind) : (label i kind).content = i.repr := by
  by_cases hkind : kind = .text
  · simp [Token.content, label, hkind, unwrapped_quotes]
  · simp [Token.content, label, hkind]

/-- A token matches the label of its index. -/
theorem matches_label {tokens : List Token} {i : Nat} {token : Token}
    (h : tokens[i]? = some token) :
    (label i token.kind).Matches (contentAt tokens) (fun _ _ => True) (placeAt tokens) token where
  kind := rfl
  place := by simp [placeAt, label, h]
  content _ := by simp [contentAt, h]
  word _ := trivial

/-- **Every list of tokens matches the labels of its kinds.** -/
theorem aligned_labels (tokens : List Token) :
    Aligned (contentAt tokens) (fun _ _ => True) (placeAt tokens)
      (labels (tokens.map (·.kind))) tokens := by
  refine List.forall₂_iff_get.2 ⟨by simp [labels], fun i _ hi => ?_⟩
  have hlabel := matches_label (List.getElem?_eq_getElem hi)
  simpa [labels] using hlabel

/-! ## What of a list may come into a tree -/

/-- **The tokens that a tree may show**: those in front of the end and outside the bodies of macro
regions. -/
def visible (tokens : List Token) : List Token :=
  outsideBodies .outside (TokenList.of tokens).body

theorem outsideBodies_essence (region : Region) (tokens : List Token) :
    outsideBodies region (tokens.map Token.essence) =
      (outsideBodies region tokens).map Token.essence := by
  induction tokens generalizing region with
  | nil => rfl
  | cons token rest ih =>
    simp only [List.map_cons, outsideBodies, Token.essence, ih]
    split <;> rfl

theorem body_essence (tokens : List Token) :
    (TokenList.of (tokens.map Token.essence)).body =
      (TokenList.of tokens).body.map Token.essence := by
  simp only [TokenList.of, List.takeWhile_map]
  rfl

theorem visible_essence (tokens : List Token) :
    visible (tokens.map Token.essence) = (visible tokens).map Token.essence := by
  rw [visible, visible, body_essence, outsideBodies_essence]

section Visible

variable {tokens others : List Token} {body body' : List Node}

/-- The statements of a program are those of its visible tokens. -/
theorem statements_visible (h : parseProgram tokens = .ok (programOf body)) :
    Parser.statements (.statement nestingLimit) (visible tokens) = .ok body := by
  obtain ⟨_, hread, hbody⟩ := parseProgram_eq_ok_iff.1 h
  obtain ⟨rfl, -⟩ := Node.program.inj hbody
  rcases Parser.statements_veiled (Parser.blind_statement nestingLimit)
    (veiled_outsideBodies .outside (TokenList.of tokens).body) with
    ⟨nodes, hnodes, hvisible⟩ | ⟨failure, _, hfailure, -⟩
  · obtain rfl := Except.ok.inj (hread.symm.trans hnodes)
    exact hvisible
  · simp [parseWithin, hfailure] at hread

/-- **What is not visible does not come into a tree.** -/
theorem body_eq_of_visible (h : parseProgram tokens = .ok (programOf body))
    (h' : parseProgram others = .ok (programOf body'))
    (hvisible : visible tokens = visible others) :
    body = body' := by
  have hbody := statements_visible h
  rw [hvisible] at hbody
  exact Except.ok.inj (hbody.symm.trans (statements_visible h'))

/-- **Nothing but the essence of what is visible comes into a tree**, up to places. -/
theorem unplaced_eq_of_visible (h : parseProgram tokens = .ok (programOf body))
    (h' : parseProgram others = .ok (programOf body'))
    (hvisible : visible (tokens.map Token.essence) = visible (others.map Token.essence)) :
    body.map Node.unplaced = body'.map Node.unplaced := by
  have hessence {list : List Token} {nodes : List Node}
      (hread : parseProgram list = .ok (programOf nodes)) :
      Parser.statements (.statement nestingLimit) (visible (list.map Token.essence)) =
        .ok (nodes.map Node.unplaced) := by
    have hnodes := statements_visible hread
    rw [visible_essence]
    rcases Parser.statements_aligned (Parser.agrees_statement nestingLimit)
      (aligned_essence (visible list)) with ⟨_, hshown, hcommon⟩ | ⟨failure, _, hfailure, -⟩
    · obtain rfl := Except.ok.inj (hnodes.symm.trans hshown)
      exact hcommon
    · simp [hnodes] at hfailure
  have hbody := hessence h
  rw [hvisible] at hbody
  exact Except.ok.inj (hbody.symm.trans (hessence h'))

end Visible

/-! ## Programs -/

/-- **One skeleton for all lists of tokens of given kinds.** -/
structure Skeleton (kinds : List Kind) (skeleton : List Node) : Prop where
  /-- It is the tree over the indices. -/
  labelled : parseProgram (labels kinds) = .ok (programOf skeleton)
  /-- All texts and places of a tree are read off at the indices of the skeleton. -/
  read : ∀ tokens, tokens.map (·.kind) = kinds →
    parseProgram tokens = .ok (programOf (skeleton.map (Node.readOff tokens)))
  /-- Up to places, only the lexemes of names, literals and operators outside the bodies of macro
  regions come into a tree. -/
  named : ∀ tokens others, tokens.map (·.kind) = kinds → others.map (·.kind) = kinds →
    visible (tokens.map Token.essence) = visible (others.map Token.essence) →
    (skeleton.map (Node.readOff tokens)).map Node.unplaced =
      (skeleton.map (Node.readOff others)).map Node.unplaced
  /-- Nothing of the tokens in the bodies of macro regions comes into a tree. -/
  hidden : ∀ tokens others, tokens.map (·.kind) = kinds → others.map (·.kind) = kinds →
    visible tokens = visible others →
    skeleton.map (Node.readOff tokens) = skeleton.map (Node.readOff others)

/-- **One rejection for all lists of tokens of given kinds**: at one index, and with one expectation
up to the words that it quotes. -/
def RejectedAt (kinds : List Kind) (i : Nat) (expected : Expectation) : Prop :=
  ∀ tokens, tokens.map (·.kind) = kinds →
    ∃ rejection, parseProgram tokens = .error rejection ∧
      rejection.expected.unquoted = expected ∧
      (tokens ++ [impliedStop tokens])[i]? = some rejection.token

/-- **Kinds alone steer the parser**: of lists of the same kinds all are programs with one skeleton,
or all are rejected at one index. -/
theorem parseProgram_of_kinds (kinds : List Kind) :
    (∃ skeleton, Skeleton kinds skeleton) ∨ ∃ i expected, RejectedAt kinds i expected := by
  have haligned (tokens : List Token) (h : tokens.map (·.kind) = kinds) :=
    parseProgram_aligned (h ▸ aligned_labels tokens)
  rcases hlabels : parseProgram (labels kinds) with rejection | tree
  · refine .inr ⟨stopIndex (labels kinds), rejection.expected.unquoted, fun tokens h => ?_⟩
    rcases haligned tokens h with ⟨body, hbody, -⟩ | ⟨_, rejection', hrejection, hother, he, hi⟩
    · simp [hlabels] at hbody
    · obtain rfl := Except.error.inj (hlabels.symm.trans hrejection)
      exact ⟨rejection', hother, he.unquoted.symm, hi ▸ getElem?_rejected hother⟩
  · obtain ⟨skeleton, -, rfl⟩ := parseProgram_eq_ok_iff.1 hlabels
    have hread (tokens : List Token) (h : tokens.map (·.kind) = kinds) :
        parseProgram tokens = .ok (programOf (skeleton.map (Node.readOff tokens))) := by
      rcases haligned tokens h with ⟨body, hbody, hother⟩ | ⟨_, _, hrejection, -⟩
      · obtain ⟨rfl, -⟩ := Node.program.inj (Except.ok.inj (hlabels.symm.trans hbody))
        exact hother
      · simp [hlabels] at hrejection
    refine .inl ⟨skeleton, ?_⟩
    exact {
      labelled := hlabels
      read := hread
      named := fun tokens others h h' => unplaced_eq_of_visible (hread tokens h) (hread others h')
      hidden := fun tokens others h h' =>
        body_eq_of_visible (hread tokens h) (hread others h') }

/-- The skeleton of `| a : … | b = -"c";`, with two tokens in the body of the region. -/
example : parseProgram (labels [.operator .pipe, .identifier, .mark .colon, .identifier, .unknown,
      .operator .pipe, .identifier, .operator .assign, .operator .minus, .text, .mark .semicolon]) =
    .ok (programOf [.macroRegion "1" ⟨0, 1⟩,
      .assign "6" (.unary "8" (.literal "9" "string" ⟨9, 1⟩) ⟨8, 1⟩) ⟨6, 1⟩]) := by cbv

end ScriptFrontend
