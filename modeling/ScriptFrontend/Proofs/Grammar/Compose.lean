import ScriptFrontend.Proofs.Grammar.Basic

/-!
# Proofs/Grammar/Compose — what is true of all that productions put together

Every node of a derived tree is introduced by a token of its own, of a kind that goes with the form
of the node (`Form.introducers`), and is spelled by some tokens around it (`Grammar.Construct`).

A production puts words side by side and gives their trees a node, whose children need not stand in
the order of the words.  A relation of words and trees that is kept by these few ways of putting
things together is **compositional**; it then holds of everything that the grammar derives
(`Compositional.expression`, `Compositional.statement`).  So the productions are gone through once,
one case for each, and words without bars are all that needs to be known of what carries no tree:
the bars are those of macro regions.
-/

namespace ScriptFrontend

open Grammar

/-- The kinds of the tokens that introduce a node of a form. -/
def Form.introducers : Form → List Kind
  | .bare | .program => []
  | .literal => [.number, .text]
  | .identifier | .assign => [.identifier]
  | .binary =>
    [.operator .equal, .operator .notEqual, .operator .less, .operator .greater,
      .operator .lessEqual, .operator .greaterEqual, .operator .plus, .operator .minus,
      .operator .times, .operator .divide, .operator .modulo]
  | .unary => [.operator .not, .operator .minus]
  | .macroRegion => [.operator .pipe]
  | .init => [.keyword .init]
  | .ifElse => [.keyword .ifWord]
  | .forLoop => [.keyword .forWord]
  | .whileLoop => [.keyword .whileWord]
  | .loop => [.keyword .loop]
  | .repeatLoop => [.keyword .repeatWord]
  | .tryCatch => [.keyword .tryWord]
  | .returnStmt => [.keyword .returnWord]
  | .breakStmt => [.keyword .breakWord]
  | .continueStmt => [.keyword .continueWord]
  | .function => [.keyword .func]
  | .matchCase => [.keyword .case]
  | .matchWith => [.keyword .matchWord]
  | .start => [.keyword .start]
  | .throw => [.keyword .throw]
  | .async => [.keyword .async]
  | .await => [.keyword .await]
  | .mutex => [.keyword .mutex]
  | .structDecl => [.keyword .struct]
  | .classDecl => [.keyword .classWord]
  | .alloc => [.keyword .alloc]
  | .free => [.keyword .free]

namespace Grammar

/-- **What a node may be**: a statement, an operand, or an entry of a match. -/
inductive Construct : List Token → Node → Prop where
  | statement {form : StatementForm} {word : List Token} {node : Node} :
    Statement form word node → Construct word node
  | expression {rank : Rank} {word : List Token} {node : Node} :
    Expression rank word node → Construct word node
  | case {head colon : Token} {pattern body : List Token} {node : Node} {nodes : List Node} :
    head.kind = .keyword .case → Expr pattern node → colon.kind = .mark .colon →
    Block Statement body nodes →
    Construct (head :: (pattern ++ colon :: body)) (.matchCase node nodes head.place)

end Grammar

/-! ## Words without bars -/

/-- No token is a bar. -/
def BarFree (word : List Token) : Prop := ∀ token ∈ word, token.kind ≠ .operator .pipe

@[simp] theorem barFree_nil : BarFree [] := List.forall_mem_nil _

@[simp] theorem barFree_cons {token : Token} {word : List Token} :
    BarFree (token :: word) ↔ token.kind ≠ .operator .pipe ∧ BarFree word := List.forall_mem_cons

@[simp] theorem barFree_append {left right : List Token} :
    BarFree (left ++ right) ↔ BarFree left ∧ BarFree right := List.forall_mem_append

theorem barFree_of_names {word : List Token} {names : List String} (h : Names word names) :
    BarFree word := by
  induction h with
  | one hname => simp [hname]
  | more _ hcomma hname ih => simp [ih, hcomma, hname]

theorem barFree_of_parameters {word : List Token} {names : List String}
    (h : Parameters word names) : BarFree word := by
  cases h with
  | none => exact barFree_nil
  | some h => exact barFree_of_names h

theorem barFree_of_fields {word : List Token} {names : List String} (h : Fields word names) :
    BarFree word := by
  induction h with
  | nil => exact barFree_nil
  | cons hname hsemicolon _ ih => simp [ih, hname, hsemicolon]

/-! ## Compositional relations -/

/-- **A relation of words and the trees that they spell** that productions keep. -/
structure Compositional (P : List Token → List Node → Prop) : Prop where
  /-- Words without bars need not spell a tree. -/
  plain : ∀ {word}, BarFree word → P word []
  /-- Words side by side spell the trees of both. -/
  append : ∀ {left right nodes others}, P left nodes → P right others →
    P (left ++ right) (nodes ++ others)
  /-- The trees may stand in the other order. -/
  append_swap : ∀ {left right nodes others}, P left nodes → P right others →
    P (left ++ right) (others ++ nodes)
  /-- A node may stand at its first token, its children being spelled behind. -/
  headed : ∀ {head word n}, Construct (head :: word) n → head.kind ∈ n.form.introducers →
    head.place = n.place → head.kind ≠ .operator .pipe → P word n.children →
    P (head :: word) [n]
  /-- A binary operation stands at its operator, between its operands. -/
  binary : ∀ {op left right l r}, Construct (left ++ op :: right) (.binary l op.lexeme r op.place) →
    op.kind ∈ Form.binary.introducers → P left [l] → P right [r] →
    P (left ++ op :: right) [.binary l op.lexeme r op.place]
  /-- A macro region stands for itself. -/
  macroRegion : ∀ {word n}, Statement .macroRegion word n → P word [n]

/-- The operators that join operands introduce binary operations. -/
theorem mem_introducers_binary (level : Level) :
    ∀ symbol ∈ level.operators, .operator symbol ∈ Form.binary.introducers := by
  cases level <;> decide

/-- A statement stands at its first token, which introduces it. -/
theorem introduced {form : StatementForm} {head : Token} {word : List Token} {node : Node}
    (h : Statement form (head :: word) node) :
    head.kind ∈ node.form.introducers ∧ head.place = node.place := by
  cases h <;> exact ⟨by simp_all [Node.form, Form.introducers], rfl⟩

/-- Only a macro region starts with a bar. -/
theorem not_bar_of_statement {form : StatementForm} {head : Token} {word : List Token}
    {node : Node} (h : Statement form (head :: word) node)
    (hform : (form == .macroRegion) = false) : head.kind ≠ .operator .pipe := by
  obtain ⟨_, _, heq, hkind⟩ := h.startsWith
  obtain ⟨rfl, -⟩ := List.cons.inj heq
  rw [hkind]
  cases form <;> simp_all [StatementForm.kind]

namespace Compositional

variable {P : List Token → List Node → Prop} {word : List Token} {nodes : List Node}
  {token : Token} {kind : Kind}

/-- A token in front does not matter, unless it is a bar. -/
theorem cons (hP : Compositional P) (htoken : token.kind = kind)
    (hkind : (kind == .operator .pipe) = false) (h : P word nodes) : P (token :: word) nodes := by
  have hplain : BarFree [token] := by simpa [htoken] using hkind
  exact hP.append (hP.plain hplain) h

/-- Nor does one behind. -/
theorem closed (hP : Compositional P) (htoken : token.kind = kind)
    (hkind : (kind == .operator .pipe) = false) (h : P word nodes) :
    P (word ++ [token]) nodes := by
  have hplain : BarFree [token] := by simpa [htoken] using hkind
  simpa using hP.append h (hP.plain hplain)

/-! ## The productions -/

/-- **Expressions**, by induction on the derivation. -/
theorem expression (hP : Compositional P) {rank : Rank} {node : Node}
    (h : Expression rank word node) : P word [node] := by
  have hleaf {token : Token} {node : Node} (hspelled : Expression .primary [token] node)
      (hkind : token.kind ∈ node.form.introducers) (hplace : token.place = node.place)
      (hbar : token.kind ≠ .operator .pipe) (hchildren : node.children = []) : P [token] [node] :=
    hP.headed (.expression hspelled) hkind hplace hbar (hchildren ▸ hP.plain barFree_nil)
  induction h with
  | operand _ ih | primary _ ih => exact ih
  | binary hleft hkind hmem hright ihleft ihright =>
    exact hP.binary (.expression (.binary hleft hkind hmem hright))
      (hkind ▸ mem_introducers_binary _ _ hmem) ihleft ihright
  | unary hop hword ih =>
    refine hP.headed (.expression (.unary hop hword)) ?_ rfl ?_ ih
    · rcases hop with hop | hop <;> simp [hop, Node.form, Form.introducers]
    · rcases hop with hop | hop <;> simp [hop]
  | number h =>
    exact hleaf (.number h) (by simp [h, Node.form, Form.introducers]) rfl (by simp [h]) rfl
  | text h =>
    exact hleaf (.text h) (by simp [h, Node.form, Form.introducers]) rfl (by simp [h]) rfl
  | identifier h =>
    exact hleaf (.identifier h) (by simp [h, Node.form, Form.introducers]) rfl (by simp [h]) rfl
  | group hopening _ hclosing ih =>
    exact hP.cons hopening rfl (hP.closed hclosing rfl ih)

theorem optionalExpr (hP : Compositional P) {part : Option Node} (h : OptionalExpr word part) :
    P word (Field.ofNode? part).children := by
  cases h with
  | absent => exact hP.plain barFree_nil
  | present h => exact hP.expression h

/-- The relation holds of statements of fewer tokens than a bound. -/
def Below (P : List Token → List Node → Prop) (bound : Nat) : Prop :=
  ∀ {form : StatementForm} {word : List Token} {node : Node},
    word.length < bound → Statement form word node → P word [node]

section Below

variable {bound : Nat}

theorem statementsBelow (hP : Compositional P) (h : Below P bound) (hlt : word.length < bound)
    (hword : Statements Statement word nodes) : P word nodes := by
  induction hword with
  | nil => exact hP.plain barFree_nil
  | cons hnode _ ih =>
    rw [List.length_append] at hlt
    exact hP.append (h (by omega) hnode) (ih (by omega))

theorem blockBelow (hP : Compositional P) (h : Below P bound) (hlt : word.length < bound)
    (hword : Block Statement word nodes) : P word nodes := by
  obtain ⟨hopening, hnodes, hclosing⟩ := hword
  simp only [List.length_cons, List.length_append] at hlt
  exact hP.cons hopening rfl (hP.closed hclosing rfl (hP.statementsBelow h (by omega) hnodes))

theorem loopStartBelow (hP : Compositional P) (h : Below P bound) {part : Option Node}
    (hlt : word.length < bound) (hword : LoopStart Statement word part) :
    P word (Field.ofNode? part).children := by
  cases hword with
  | declaration hnode => exact h hlt hnode
  | empty hsemicolon => exact hP.plain (by simp [hsemicolon])

/-- The entries of a match spell its cases and what its default holds, wherever that one stands. -/
theorem entriesBelow (hP : Compositional P) (h : Below P bound) {cases : List Node}
    {defaultBody : Option (List Node)} (hlt : word.length < bound)
    (hword : Entries Statement word cases defaultBody) :
    P word (cases ++ (Field.ofNodes? defaultBody).children) := by
  induction hword with
  | nil => exact hP.plain barFree_nil
  | @case head colon pattern body tokens node nodes cases defaultBody hhead hpattern hcolon hbody _
      ih =>
    simp only [List.length_cons, List.length_append] at hlt
    have hchildren : P (pattern ++ colon :: body) (node :: nodes) :=
      hP.append (hP.expression hpattern) (hP.cons hcolon rfl (hP.blockBelow h (by omega) hbody))
    have hcase : P (head :: (pattern ++ colon :: body)) [.matchCase node nodes head.place] := by
      refine hP.headed (.case hhead hpattern hcolon hbody)
        (by simp [hhead, Node.form, Form.introducers]) rfl (by simp [hhead]) ?_
      simpa [Node.children, Node.fields, Field.children] using hchildren
    simpa using hP.append hcase (ih (by omega))
  | @default head colon body tokens nodes cases hhead hcolon hbody _ ih =>
    simp only [List.length_cons, List.length_append] at hlt
    have hrest : P tokens cases := by simpa [Field.ofNodes?, Field.children] using ih (by omega)
    have hboth := hP.append_swap (hP.blockBelow h (by omega) hbody) hrest
    exact hP.cons hhead rfl (hP.cons hcolon rfl hboth)

/-- **The same for the next length**: one case for each production. -/
theorem step (hP : Compositional P) (h : Below P word.length) {form : StatementForm} {node : Node}
    (hword : Statement form word node) : P word [node] := by
  have hheaded {head : Token} {rest : List Token} (hsplit : word = head :: rest)
      (hform : (form == .macroRegion) = false) (hchildren : P rest node.children) :
      P word [node] := by
    subst hsplit
    exact hP.headed (.statement hword) (introduced hword).1 (introduced hword).2
      (not_bar_of_statement hword hform) hchildren
  have hblock {part : List Token} {nodes : List Node} (hpart : Block Statement part nodes)
      (hlt : part.length < word.length) : P part nodes := hP.blockBelow h hlt hpart
  have hvalue {part : List Token} {n : Node} (hpart : Expr part n) : P part [n] :=
    hP.expression hpart
  cases hword with
  | init _ hname hequals hpart hsemicolon =>
    exact hheaded rfl rfl
      (hP.cons hname rfl (hP.cons hequals rfl (hP.closed hsemicolon rfl (hvalue hpart))))
  | assignment _ hequals hpart hsemicolon =>
    exact hheaded rfl rfl (hP.cons hequals rfl (hP.closed hsemicolon rfl (hvalue hpart)))
  | ifElse _ hopening hcondition hclosing hbody =>
    have hthen := hblock hbody (by simp only [List.length_cons, List.length_append]; omega)
    refine hheaded rfl rfl (hP.cons hopening rfl ?_)
    simpa [Node.children, Node.fields, Field.children, Field.ofNodes?] using
      hP.append (hvalue hcondition) (hP.cons hclosing rfl hthen)
  | ifElseElse _ hopening hcondition hclosing hbody hother hotherBody =>
    have hthen := hblock hbody (by simp only [List.length_cons, List.length_append]; omega)
    have helse := hblock hotherBody (by simp only [List.length_cons, List.length_append]; omega)
    refine hheaded rfl rfl (hP.cons hopening rfl ?_)
    simpa [Node.children, Node.fields, Field.children, Field.ofNodes?] using
      hP.append (hvalue hcondition)
        (hP.cons hclosing rfl (hP.append hthen (hP.cons hother rfl helse)))
  | forLoop _ hopening hfirst hcondition hsemicolon hincrement hclosing hbody =>
    have hstart := hP.loopStartBelow h
      (by simp only [List.length_cons, List.length_append]; omega) hfirst
    have hinner := hblock hbody (by simp only [List.length_cons, List.length_append]; omega)
    refine hheaded rfl rfl (hP.cons hopening rfl ?_)
    simpa [Node.children, Node.fields, Field.children] using
      hP.append hstart (hP.append (hP.optionalExpr hcondition) (hP.cons hsemicolon rfl
        (hP.append (hP.optionalExpr hincrement) (hP.cons hclosing rfl hinner))))
  | whileLoop _ hopening hcondition hclosing hbody =>
    have hinner := hblock hbody (by simp only [List.length_cons, List.length_append]; omega)
    refine hheaded rfl rfl (hP.cons hopening rfl ?_)
    simpa [Node.children, Node.fields, Field.children] using
      hP.append (hvalue hcondition) (hP.cons hclosing rfl hinner)
  | loop _ hbody | repeatLoop _ hbody | async _ hbody | mutex _ hbody =>
    refine hheaded rfl rfl ?_
    have hinner := hblock hbody (by simp only [List.length_cons]; omega)
    simpa [Node.children, Node.fields, Field.children] using hinner
  | tryCatch _ hbody hother hotherBody =>
    have htry := hblock hbody (by simp only [List.length_cons, List.length_append]; omega)
    have hcatch := hblock hotherBody (by simp only [List.length_cons, List.length_append]; omega)
    refine hheaded rfl rfl ?_
    simpa [Node.children, Node.fields, Field.children] using
      hP.append htry (hP.cons hother rfl hcatch)
  | macroRegion hhead hname hcolon hskipped hclosing =>
    exact hP.macroRegion (.macroRegion hhead hname hcolon hskipped hclosing)
  | returnStmt _ hsemicolon | breakStmt _ hsemicolon | continueStmt _ hsemicolon =>
    exact hheaded rfl rfl (hP.plain (by simp [hsemicolon]))
  | free _ hname hsemicolon =>
    exact hheaded rfl rfl (hP.plain (by simp [hname, hsemicolon]))
  | structDecl _ hname hopening hfields hclosing =>
    have hplain := barFree_of_fields hfields
    exact hheaded rfl rfl (hP.plain (by simp [hname, hopening, hplain, hclosing]))
  | function _ hname hopening hparameters hclosing hbody =>
    have hinner := hblock hbody (by simp only [List.length_cons, List.length_append]; omega)
    refine hheaded rfl rfl (hP.cons hname rfl (hP.cons hopening rfl ?_))
    simpa [Node.children, Node.fields, Field.children] using
      hP.append (hP.plain (barFree_of_parameters hparameters)) (hP.cons hclosing rfl hinner)
  | matchWith _ hopening hsubject hclosing hleft hentries hright =>
    have hcases := hP.entriesBelow h
      (by simp only [List.length_cons, List.length_append]; omega) hentries
    refine hheaded rfl rfl (hP.cons hopening rfl ?_)
    simpa [Node.children, Node.fields, Field.children] using
      hP.append (hvalue hsubject)
        (hP.cons hclosing rfl (hP.cons hleft rfl (hP.closed hright rfl hcases)))
  | await _ hpart hsemicolon | throw _ hpart hsemicolon =>
    exact hheaded rfl rfl (hP.closed hsemicolon rfl (hvalue hpart))
  | classDecl _ hname hbody =>
    have hinner := hblock hbody (by simp only [List.length_cons]; omega)
    refine hheaded rfl rfl (hP.cons hname rfl ?_)
    simpa [Node.children, Node.fields, Field.children] using hinner
  | @alloc _ _ _ closing semicolon _ _ _ hname hopening hsize hclosing hsemicolon =>
    have hend : BarFree [closing, semicolon] := by simp [hclosing, hsemicolon]
    refine hheaded rfl rfl (hP.cons hname rfl (hP.cons hopening rfl ?_))
    simpa [Node.children, Node.fields, Field.children] using
      hP.append (hvalue hsize) (hP.plain hend)
  | @start _ other semicolon _ _ _ hbody hother hsemicolon =>
    have hinner := hblock hbody (by simp only [List.length_cons, List.length_append]; omega)
    have hend : BarFree [other, semicolon] := by simp [hother, hsemicolon]
    refine hheaded rfl rfl ?_
    simpa [Node.children, Node.fields, Field.children] using hP.append hinner (hP.plain hend)

end Below

/-- **Statements**, by induction on their length. -/
theorem statement (hP : Compositional P) {form : StatementForm} {word : List Token} {node : Node}
    (h : Statement form word node) : P word [node] :=
  hP.step (fun _ hpart => hP.statement hpart) h
termination_by word.length

/-- **All that the grammar derives from statement to statement.** -/
theorem statements (hP : Compositional P) (h : Statements Statement word nodes) : P word nodes :=
  hP.statementsBelow (fun _ hpart => hP.statement hpart) (Nat.lt_succ_self _) h

end Compositional

end ScriptFrontend
