import ScriptFrontend.Proofs.Grammar.Origin
import ScriptFrontend.Proofs.Lexeme.Listed
import ScriptFrontend.Proofs.Parse.Program
import ScriptFrontend.Proofs.Tree.Preorder

/-!
# Proofs/Parse/Origin — every node of a program comes from a token of its own

The nodes of a parsed program other than the program itself (`Node.constructs`) come from different
tokens, each from one that introduces its form, at its place, and among the tokens that spell it;
what is below a node comes from tokens inside these (`Provenance`).  So there are at most as many of
them as there are tokens, and since the tokens of a text stand at different places, so do they
(`provenance_of_parse`).
-/

namespace ScriptFrontend

open Grammar

/-- The nodes of a tree other than programs, in the order of the walk. -/
def Node.constructs (tree : Node) : List Node := tree.walk.filter (·.form != .program)

/-- **Where the nodes of a program come from.** -/
structure Provenance (tokens : List Token) (tree : Node) (origins : List Origin) : Prop where
  /-- One origin for each node, inside the origins of the nodes above it. -/
  traced : Traced tokens tree.children origins
  /-- The nodes are those of the walk, in order. -/
  walked : List.Forall₂ (ComesFrom tokens) tree.constructs origins
  /-- Different nodes come from different tokens. -/
  injective : (origins.map Origin.index).Nodup
  /-- The tokens are in front of the first one that ends the text. -/
  consumed : ∀ o ∈ origins, o.stop ≤ (TokenList.of tokens).body.length

/-- A node that comes from a token is no program. -/
theorem ComesFrom.form_ne {tokens : List Token} {n : Node} {o : Origin}
    (h : ComesFrom tokens n o) : n.form ≠ .program := by
  obtain ⟨_, -, hkind, -⟩ := h.token
  intro hform
  simp [hform, Form.introducers] at hkind

/-- Where every node below a program comes from a token, all but the program are kept. -/
theorem constructs_programOf {tokens : List Token} {nodes : List Node} {origins : List Origin}
    (h : List.Forall₂ (ComesFrom tokens) (nodes.flatMap Node.preorder) origins) :
    (programOf nodes).constructs = nodes.flatMap Node.preorder := by
  have hall : ∀ n ∈ nodes.flatMap Node.preorder, (n.form != .program) = true := by
    generalize nodes.flatMap Node.preorder = list at h
    induction h with
    | nil => simp
    | cons hnode _ ih =>
      exact List.forall_mem_cons.2 ⟨by simpa using hnode.form_ne, ih⟩
  have hchildren : (programOf nodes).children = nodes := List.append_nil nodes
  rw [Node.constructs, Node.walk_eq, hchildren,
    List.filter_cons_of_neg (by simp [programOf, Node.form]), List.filter_eq_self.2 hall]

section Provenance

variable {list : List Token} {tree : Node} {origins : List Origin}

/-- A parsed program is made of the statements of its tokens. -/
theorem exists_statements_of_parse (h : parseProgram list = .ok tree) :
    ∃ nodes, Statements Statement (TokenList.of list).body nodes ∧ tree = programOf nodes := by
  obtain ⟨nodes, hnodes, rfl⟩ := parseProgram_eq_ok_iff.1 h
  exact ⟨nodes, Parser.sound_statements (Parser.reads_statement _) _ hnodes, rfl⟩

/-- The nodes of a parsed program have origins. -/
theorem exists_provenance (h : parseProgram list = .ok tree) :
    ∃ origins, Provenance list tree origins := by
  obtain ⟨nodes, hnodes, rfl⟩ := exists_statements_of_parse h
  obtain ⟨rest, hrest⟩ : (TokenList.of list).body <+: list := List.takeWhile_prefix _
  obtain ⟨origins, htraced, hnodup, hwithin⟩ := bears_statements hnodes [] rest
  rw [List.nil_append, hrest] at htraced
  have hwalked := htraced.forall₂
  refine ⟨origins, ?_, by rwa [constructs_programOf hwalked], hnodup, fun o ho => ?_⟩
  · rwa [show (programOf nodes).children = nodes from List.append_nil nodes]
  · have := hwithin o ho
    simp only [List.length_nil] at this
    omega

/-- Every node of a parsed program but the program comes from a token. -/
theorem exists_comesFrom {n : Node} (h : parseProgram list = .ok tree) (hn : n ∈ tree.constructs) :
    ∃ o, ComesFrom list n o := by
  obtain ⟨origins, hprovenance⟩ := exists_provenance h
  obtain ⟨i, hi, rfl⟩ := List.getElem_of_mem hn
  exact ⟨_, hprovenance.walked.get hi (hprovenance.walked.length_eq ▸ hi)⟩

/-- Each node is at the place of the token at its index. -/
theorem Provenance.places (h : Provenance list tree origins) :
    tree.constructs.map (fun n => some n.place) =
      (origins.map Origin.index).map ((list.map (·.place))[·]?) := by
  rw [← List.forall₂_eq_eq_eq, List.map_map, List.forall₂_map_left_iff, List.forall₂_map_right_iff]
  refine h.walked.imp fun n o hnode => ?_
  obtain ⟨token, htoken, -, hplace⟩ := hnode.token
  simp [htoken, hplace]

/-- The indices are those of tokens of the list. -/
theorem Provenance.index_lt (h : Provenance list tree origins) :
    ∀ i ∈ origins.map Origin.index, i < list.length := by
  intro i hi
  obtain ⟨o, ho, rfl⟩ := List.mem_map.1 hi
  have hinside := h.traced.inside o ho
  have hconsumed := h.consumed o ho
  have hbody : (TokenList.of list).body.length ≤ list.length :=
    (List.takeWhile_sublist _).length_le
  omega

/-- Different tokens have different indices, so there are no more nodes than tokens. -/
theorem Provenance.length_le (h : Provenance list tree origins) :
    tree.constructs.length ≤ list.length := by
  have hrange : origins.map Origin.index ⊆ List.range list.length := fun i hi =>
    List.mem_range.2 (h.index_lt i hi)
  have hlength := (h.injective.subperm hrange).length_le
  rwa [List.length_map, List.length_range, ← h.walked.length_eq] at hlength

/-- Where tokens stand at different places, so do the nodes that come from them. -/
theorem Provenance.nodup_places (h : Provenance list tree origins)
    (hplaces : (list.map (·.place)).Nodup) : (tree.constructs.map Node.place).Nodup := by
  have hnodup : (tree.constructs.map fun n => some n.place).Nodup := by
    rw [h.places]
    refine h.injective.map_on fun i hi j _ heq => ?_
    exact (List.getElem?_inj (by simpa using h.index_lt i hi) hplaces).1 heq
  have hsome : (tree.constructs.map fun n => some n.place) =
      (tree.constructs.map Node.place).map some := by rw [List.map_map]; rfl
  exact List.Nodup.of_map some (hsome ▸ hnodup)

end Provenance

/-- **Every node of a program comes from a token of its own.**  So there are at most as many of them
as tokens, and those of a text stand at different places. -/
theorem provenance_of_parse {list : List Token} {tree : Node} (h : parseProgram list = .ok tree) :
    (∃ origins, Provenance list tree origins) ∧ tree.constructs.length ≤ list.length ∧
    ∀ vocabulary text, list = tokens vocabulary text →
      (tree.constructs.map Node.place).Nodup := by
  obtain ⟨origins, hprovenance⟩ := exists_provenance h
  refine ⟨⟨origins, hprovenance⟩, hprovenance.length_le, ?_⟩
  rintro vocabulary text rfl
  exact hprovenance.nodup_places (nodup_places vocabulary text)

/-- A match whose default is written in front of its case. -/
def defaultFirst : String :=
  "Match (-x) \x7b\nDefault: \x7b f = 1; \x7d\nCase 2: \x7b \x7d\n\x7d"

/-- Its tree, where the case is the first of the two. -/
def defaultFirstTree : Node :=
  programOf [.matchWith (.unary "-" (.identifier "x" ⟨1, 9⟩) ⟨1, 8⟩)
    [.matchCase (.literal "2" "int" ⟨3, 6⟩) [] ⟨3, 1⟩]
    (some [.assign "f" (.literal "1" "int" ⟨2, 16⟩) ⟨2, 12⟩]) ⟨1, 1⟩]

theorem provenance_defaultFirst :
    parseProgram (tokens .standard defaultFirst) = .ok defaultFirstTree ∧
    (∃ origins, Provenance (tokens .standard defaultFirst) defaultFirstTree origins) ∧
    (defaultFirstTree.constructs.map Node.place).Nodup ∧
    defaultFirstTree.constructs.length = 7 := by
  have h : parseProgram (tokens .standard defaultFirst) = .ok defaultFirstTree := by cbv
  obtain ⟨horigins, -, hplaces⟩ := provenance_of_parse h
  exact ⟨h, horigins, hplaces _ _ rfl, by cbv⟩

end ScriptFrontend
