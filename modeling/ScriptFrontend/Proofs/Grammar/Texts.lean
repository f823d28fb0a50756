import ScriptFrontend.Proofs.Grammar.Origin
import ScriptFrontend.Proofs.Parse.Agree

/-!
# Proofs/Grammar/Texts — the texts in a tree are lexemes

What a node holds of texts — names, operators, the value of a literal — are lexemes of tokens of
its word, but for a quoted text, whose quotes are left out.  So what holds of all lexemes of a word
holds of the texts in its node (`Grammar.Construct.strings_or_isQuoted`).
-/

namespace ScriptFrontend

/-- The texts in a field. -/
def Field.strings {α : Type} : Field α → List String
  | text value => [value]
  | texts values => values
  | node _ | nodes _ | absent => []

/-- **The texts in a node** itself, and not in the nodes below it. -/
def Node.strings (n : Node) : List String := n.fields.flatMap fun field => field.2.strings

namespace Field

variable {α : Type}

@[simp] theorem strings_text (value : String) : (text value : Field α).strings = [value] := rfl

@[simp] theorem strings_texts (values : List String) :
    (texts values : Field α).strings = values := rfl

@[simp] theorem strings_node (n : α) : (node n).strings = [] := rfl

@[simp] theorem strings_nodes (list : List α) : (nodes list).strings = [] := rfl

@[simp] theorem strings_ofNode? (part : Option α) : (ofNode? part).strings = [] := by
  cases part <;> rfl

@[simp] theorem strings_ofNodes? (part : Option (List α)) : (ofNodes? part).strings = [] := by
  cases part <;> rfl

end Field

/-- Whether a node is a literal that is quoted in the source. -/
def Node.IsQuoted (n : Node) : Prop := ∃ value place, n = .literal value "string" place

namespace Grammar

variable {P : String → Prop} {word : List Token} {names : List String} {n : Node}

/-! ## Names -/

theorem Names.forall_mem (h : Names word names)
    (hword : ∀ token ∈ word, token.kind = .identifier → P token.lexeme) :
    ∀ name ∈ names, P name := by
  induction h with
  | @one name hkind => exact List.forall_mem_singleton.2 (hword name (by simp) hkind)
  | @more comma name tokens names _ _ hkind ih =>
    obtain ⟨htokens, hrest⟩ := List.forall_mem_append.1 hword
    refine List.forall_mem_append.2 ⟨ih htokens, List.forall_mem_singleton.2 ?_⟩
    exact hrest name (by simp) hkind

theorem Parameters.forall_mem (h : Parameters word names)
    (hword : ∀ token ∈ word, token.kind = .identifier → P token.lexeme) :
    ∀ name ∈ names, P name := by
  cases h with
  | none => simp
  | some hnames => exact hnames.forall_mem hword

theorem Fields.forall_mem (h : Fields word names)
    (hword : ∀ token ∈ word, token.kind = .identifier → P token.lexeme) :
    ∀ name ∈ names, P name := by
  induction h with
  | nil => simp
  | @cons name semicolon tokens names hkind _ _ ih =>
    obtain ⟨hname, -, htokens⟩ := by simpa only [List.forall_mem_cons] using hword
    exact List.forall_mem_cons.2 ⟨hname hkind, ih htokens⟩

/-! ## Texts -/

theorem Expression.strings_or_isQuoted {rank : Rank} (h : Expression rank word n)
    (hword : ∀ token ∈ word, token.kind.isNamed = true → token.kind ≠ .text → P token.lexeme)
    (htype : P "int") : (∀ value ∈ n.strings, P value) ∨ n.IsQuoted := by
  induction h with
  | operand _ ih | primary _ ih => exact ih hword
  | @binary _ _ op _ _ _ _ _ hkind =>
    have hop : P op.lexeme := hword op (by simp) (by simp [hkind, Kind.isNamed]) (by simp [hkind])
    exact .inl (by simpa [Node.strings, Node.fields] using hop)
  | @unary op _ _ hkind =>
    have hop : P op.lexeme := by
      rcases hkind with hkind | hkind <;>
        exact hword op (by simp) (by simp [hkind, Kind.isNamed]) (by simp [hkind])
    exact .inl (by simpa [Node.strings, Node.fields] using hop)
  | @number token hkind =>
    have htoken : P token.lexeme :=
      hword token (by simp) (by simp [hkind, Kind.isNamed]) (by simp [hkind])
    exact .inl (by simp [Node.strings, Node.fields, htoken, htype])
  | text => exact .inr ⟨_, _, rfl⟩
  | @identifier token hkind =>
    have htoken : P token.lexeme :=
      hword token (by simp) (by simp [hkind, Kind.isNamed]) (by simp [hkind])
    exact .inl (by simpa [Node.strings, Node.fields] using htoken)
  | group _ _ _ ih => exact ih fun token hmem => hword token (by simp [hmem])

theorem Statement.strings {form : StatementForm} (h : Statement form word n)
    (hword : ∀ token ∈ word, token.kind = .identifier → P token.lexeme) :
    ∀ value ∈ n.strings, P value := by
  cases h with
  | init _ hname | assignment hname | macroRegion _ hname | classDecl _ hname | alloc _ hname
  | free _ hname =>
    simpa [Node.strings, Node.fields] using hword _ (by simp) hname
  | function _ hname _ hparameters =>
    have hnames := hparameters.forall_mem fun token hmem => hword token (by simp [hmem])
    simpa [Node.strings, Node.fields] using ⟨hword _ (by simp) hname, hnames⟩
  | structDecl _ hname _ hfields =>
    have hnames := hfields.forall_mem fun token hmem => hword token (by simp [hmem])
    simpa [Node.strings, Node.fields] using ⟨hword _ (by simp) hname, hnames⟩
  | ifElse | ifElseElse | forLoop | whileLoop | loop | repeatLoop | tryCatch | returnStmt
  | matchWith | async | await | mutex | start | throw | breakStmt | continueStmt =>
    simp [Node.strings, Node.fields]

/-- **What holds of the lexemes of a word holds of the texts in its node**, unless that is a literal
that is quoted. -/
theorem Construct.strings_or_isQuoted (h : Construct word n)
    (hword : ∀ token ∈ word, token.kind.isNamed = true → token.kind ≠ .text → P token.lexeme)
    (htype : P "int") : (∀ value ∈ n.strings, P value) ∨ n.IsQuoted := by
  cases h with
  | statement h =>
    refine .inl (h.strings fun token hmem hkind => hword token hmem ?_ ?_)
    · simp [hkind, Kind.isNamed]
    · simp [hkind]
  | expression h => exact h.strings_or_isQuoted hword htype
  | case => exact .inl (by simp [Node.strings, Node.fields])

end Grammar

end ScriptFrontend
