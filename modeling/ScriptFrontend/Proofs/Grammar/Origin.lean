import Mathlib.Data.List.Forall2
import ScriptFrontend.Proofs.Grammar.Compose
import ScriptFrontend.Tree.Walk

/-!
# Proofs/Grammar/Origin — the tokens that the nodes of a derivation come from

Every node of a derived tree stands at the place of one token, of a kind that introduces nodes of
its form (`Form.introducers`).  The **origin** of a node is the index of that token, with the
indices between which the tokens spell the node (`Origin`).  `Traced` gives a list of trees the
origins of all its nodes, parents first; those of the nodes below a node lie within its own.

A word **bears** some trees if in every list around it they have origins inside the word, with
different indices (`Bears`).  Words side by side bear the trees of both, in either order, since they
share no token; a node is borne by its own token together with the words of its children
(`Bears.headed`, `Bears.binary`).  So bearing trees is compositional, and all that the grammar
derives does (`bears_statements`).
-/

namespace ScriptFrontend

open Grammar

/-! ## Origins -/

/-- The index of a node's token, and the tokens that spell the node, from one index up to another
one. -/
structure Origin where
  start : Nat
  index : Nat
  stop : Nat
  deriving DecidableEq

/-- All tokens of the one are tokens of the other. -/
def Origin.Within (inner outer : Origin) : Prop :=
  outer.start ≤ inner.start ∧ inner.stop ≤ outer.stop

/-- **A node comes from a token** among those that spell it. -/
structure ComesFrom (tokens : List Token) (n : Node) (o : Origin) : Prop where
  inside : o.start ≤ o.index ∧ o.index < o.stop
  token : ∃ token, tokens[o.index]? = some token ∧ token.kind ∈ n.form.introducers ∧
    token.place = n.place
  spelled : Construct ((tokens.drop o.start).take (o.stop - o.start)) n

/-- **The origins of the nodes of some trees**, parents first.  Those below a node are within its
own. -/
inductive Traced (tokens : List Token) : List Node → List Origin → Prop where
  | nil : Traced tokens [] []
  | cons {n : Node} {nodes : List Node} {o : Origin} {inner rest : List Origin} :
    ComesFrom tokens n o → Traced tokens n.children inner → (∀ p ∈ inner, p.Within o) →
    Traced tokens nodes rest → Traced tokens (n :: nodes) (o :: (inner ++ rest))

section Traced

variable {tokens : List Token} {nodes others : List Node} {origins more : List Origin}

theorem Traced.append (h : Traced tokens nodes origins) (h' : Traced tokens others more) :
    Traced tokens (nodes ++ others) (origins ++ more) := by
  induction h with
  | nil => exact h'
  | cons hnode hinner hwithin _ _ ih =>
    simpa using Traced.cons hnode hinner hwithin ih

/-- **There is one origin for each node**, in the order of the walk. -/
theorem Traced.forall₂ (h : Traced tokens nodes origins) :
    List.Forall₂ (ComesFrom tokens) (nodes.flatMap Node.preorder) origins := by
  induction h with
  | nil => exact .nil
  | cons hnode _ _ _ ihinner ihrest =>
    rw [List.flatMap_cons, Node.preorder_eq, List.cons_append]
    exact .cons hnode (List.rel_append ihinner ihrest)

theorem Traced.inside (h : Traced tokens nodes origins) :
    ∀ o ∈ origins, o.start ≤ o.index ∧ o.index < o.stop := by
  induction h with
  | nil => simp
  | cons hnode _ _ _ ihinner ihrest =>
    exact List.forall_mem_cons.2 ⟨hnode.inside, List.forall_mem_append.2 ⟨ihinner, ihrest⟩⟩

end Traced

/-! ## Words that bear trees -/

/-- Trees have origins between two indices, with different tokens. -/
def Spans (tokens : List Token) (first last : Nat) (nodes : List Node) : Prop :=
  ∃ origins, Traced tokens nodes origins ∧ (origins.map Origin.index).Nodup ∧
    ∀ o ∈ origins, first ≤ o.start ∧ o.stop ≤ last

section Spans

variable {tokens : List Token} {nodes others : List Node} {first last : Nat}

theorem spans_nil (tokens : List Token) (first last : Nat) : Spans tokens first last [] :=
  ⟨[], .nil, by simp, by simp⟩

/-- A tree has the origins of its children and one of its own. -/
theorem Spans.node {n : Node} {o : Origin} {origins : List Origin} (hnode : ComesFrom tokens n o)
    (htraced : Traced tokens n.children origins) (hnodup : (origins.map Origin.index).Nodup)
    (hwithin : ∀ p ∈ origins, p.Within o ∧ p.index ≠ o.index) :
    Spans tokens o.start o.stop [n] := by
  refine ⟨o :: origins, ?_, ?_, ?_⟩
  · simpa using Traced.cons hnode htraced (fun p hp => (hwithin p hp).1) .nil
  · rw [List.map_cons, List.nodup_cons]
    refine ⟨fun hmem => ?_, hnodup⟩
    obtain ⟨p, hp, hindex⟩ := List.mem_map.1 hmem
    exact (hwithin p hp).2 hindex
  · exact List.forall_mem_cons.2 ⟨⟨Nat.le_refl _, Nat.le_refl _⟩, fun p hp => (hwithin p hp).1⟩

end Spans

/-- A node comes from the token at its place, in every list around its word. -/
theorem comesFrom {right : List Token} {token : Token} {n : Node} (front back left : List Token)
    (hspelled : Construct (left ++ token :: right) n) (hkind : token.kind ∈ n.form.introducers)
    (hplace : token.place = n.place) :
    ComesFrom (front ++ (left ++ token :: right ++ back)) n
      ⟨front.length, front.length + left.length,
        front.length + (left ++ token :: right).length⟩ where
  inside := by
    simp only [List.length_append, List.length_cons]
    omega
  token := by
    refine ⟨token, ?_, hkind, hplace⟩
    rw [List.getElem?_append_right (Nat.le_add_right _ _), Nat.add_sub_cancel_left]
    simp
  spelled := by rwa [List.drop_left, Nat.add_sub_cancel_left, List.take_left]

/-- **A word bears some trees**: in every list around it they have origins inside the word. -/
def Bears (word : List Token) (nodes : List Node) : Prop :=
  ∀ front back, Spans (front ++ (word ++ back)) front.length (front.length + word.length) nodes

namespace Bears

variable {word left right : List Token} {nodes others : List Node} {head : Token}

theorem nil (word : List Token) : Bears word [] := fun _ _ => spans_nil _ _ _

/-- What two words bear in one list, with other tokens between them, comes from different tokens. -/
theorem beside (hleft : Bears left nodes) (hright : Bears right others)
    (front mid back : List Token) :
    ∃ origins more, Traced (front ++ (left ++ mid ++ right ++ back)) nodes origins ∧
      Traced (front ++ (left ++ mid ++ right ++ back)) others more ∧
      ((origins ++ more).map Origin.index).Nodup ∧
      (∀ o ∈ origins, front.length ≤ o.start ∧ o.stop ≤ front.length + left.length) ∧
      ∀ o ∈ more, front.length + (left ++ mid).length ≤ o.start ∧
        o.stop ≤ front.length + (left ++ mid ++ right).length := by
  obtain ⟨origins, htraced, hnodup, hwithin⟩ := hleft front (mid ++ right ++ back)
  obtain ⟨more, htraced', hnodup', hwithin'⟩ := hright (front ++ (left ++ mid)) back
  simp only [List.append_assoc, List.length_append, Nat.add_assoc] at *
  refine ⟨origins, more, htraced, htraced', ?_, hwithin, hwithin'⟩
  rw [List.map_append]
  refine List.nodup_append.2 ⟨hnodup, hnodup', ?_⟩
  rintro i hi _ hj rfl
  obtain ⟨o, ho, rfl⟩ := List.mem_map.1 hi
  obtain ⟨p, hp, hindex⟩ := List.mem_map.1 hj
  have hinside := htraced.inside o ho
  have hinside' := htraced'.inside p hp
  have hbound := hwithin o ho
  have hbound' := hwithin' p hp
  omega

/-- What words side by side bear, in one list and in either order. -/
theorem spans_append (hleft : Bears left nodes) (hright : Bears right others)
    (front back : List Token) :
    Spans (front ++ (left ++ right ++ back)) front.length (front.length + (left ++ right).length)
        (nodes ++ others) ∧
      Spans (front ++ (left ++ right ++ back)) front.length (front.length + (left ++ right).length)
        (others ++ nodes) := by
  obtain ⟨origins, more, htraced, htraced', hnodup, hwithin, hwithin'⟩ :=
    hleft.beside hright front [] back
  rw [List.append_nil] at htraced htraced' hwithin'
  have hall : ∀ o ∈ origins ++ more,
      front.length ≤ o.start ∧ o.stop ≤ front.length + (left ++ right).length := by
    simp only [List.length_append] at *
    refine List.forall_mem_append.2 ⟨fun o ho => ?_, fun o ho => ?_⟩
    · have := hwithin o ho
      omega
    · have := hwithin' o ho
      omega
  have hcomm : (origins ++ more).Perm (more ++ origins) := List.perm_append_comm
  exact ⟨⟨origins ++ more, htraced.append htraced', hnodup, hall⟩,
    ⟨more ++ origins, htraced'.append htraced, (hcomm.map _).nodup_iff.1 hnodup,
      fun o ho => hall o (hcomm.mem_iff.2 ho)⟩⟩

/-- **Words side by side bear the trees of both.** -/
theorem append (hleft : Bears left nodes) (hright : Bears right others) :
    Bears (left ++ right) (nodes ++ others) := fun front back =>
  (hleft.spans_append hright front back).1

/-- The trees may stand in the other order. -/
theorem append_swap (hleft : Bears left nodes) (hright : Bears right others) :
    Bears (left ++ right) (others ++ nodes) := fun front back =>
  (hleft.spans_append hright front back).2

/-- **A node is borne by its first token and what bears its children.** -/
theorem headed {n : Node} (hspelled : Construct (head :: word) n)
    (hkind : head.kind ∈ n.form.introducers) (hplace : head.place = n.place)
    (hchildren : Bears word n.children) : Bears (head :: word) [n] := fun front back => by
  obtain ⟨origins, htraced, hnodup, hwithin⟩ := hchildren (front ++ [head]) back
  have hnode : ComesFrom (front ++ (head :: word ++ back)) n
      ⟨front.length, front.length, front.length + (head :: word).length⟩ :=
    comesFrom front back [] hspelled hkind hplace
  simp only [List.append_assoc, List.singleton_append, List.length_append,
    List.length_singleton] at htraced hwithin
  refine Spans.node hnode htraced hnodup fun p hp => ?_
  have hbound := hwithin p hp
  have hinside := htraced.inside p hp
  simp only [Origin.Within, List.length_cons]
  omega

/-- **A binary operation is borne by its operator** between what bears its operands. -/
theorem binary {op : Token} {l r : Node}
    (hspelled : Construct (left ++ op :: right) (.binary l op.lexeme r op.place))
    (hkind : op.kind ∈ Form.binary.introducers) (hleft : Bears left [l])
    (hright : Bears right [r]) :
    Bears (left ++ op :: right) [.binary l op.lexeme r op.place] := fun front back => by
  obtain ⟨origins, more, htraced, htraced', hnodup, hwithin, hwithin'⟩ :=
    hleft.beside hright front [op] back
  rw [List.append_assoc left, List.singleton_append] at htraced htraced' hwithin'
  refine Spans.node (comesFrom front back left hspelled hkind rfl) (htraced.append htraced') hnodup
    fun p hp => ?_
  simp only [Origin.Within, List.length_append, List.length_cons] at *
  rcases List.mem_append.1 hp with hp | hp
  · have hbound := hwithin p hp
    have hinside := htraced.inside p hp
    omega
  · have hbound := hwithin' p hp
    have hinside := htraced'.inside p hp
    omega

end Bears

/-- **Bearing trees is kept by productions.** -/
theorem compositional_bears : Compositional Bears where
  plain _ := .nil _
  append hleft hright := hleft.append hright
  append_swap hleft hright := hleft.append_swap hright
  headed hspelled hkind hplace _ hchildren := .headed hspelled hkind hplace hchildren
  binary hspelled hkind hleft hright := .binary hspelled hkind hleft hright
  macroRegion hword := by
    obtain ⟨_, _, rfl, -⟩ := hword.startsWith
    have hchildren {word : List Token} {n : Node} (h : Statement .macroRegion word n) :
        n.children = [] := by cases h; rfl
    exact .headed (.statement hword) (introduced hword).1 (introduced hword).2
      (hchildren hword ▸ .nil _)

/-- **Statements bear their trees.** -/
theorem bears_statements {word : List Token} {nodes : List Node}
    (h : Statements Statement word nodes) : Bears word nodes :=
  compositional_bears.statements h

end ScriptFrontend
