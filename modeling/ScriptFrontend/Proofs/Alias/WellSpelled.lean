import ScriptFrontend.Proofs.Alias.History
import ScriptFrontend.Proofs.Grammar.Texts
import ScriptFrontend.Proofs.Parse.Kinds
import ScriptFrontend.Proofs.Parse.Origin

/-!
# Proofs/Alias/WellSpelled — the names, values and operators of a program

What a node shows is the lexeme of a token of its word, and the kind of a token says what its lexeme
looks like (`Token.Spelled`): the lexical rules give digits to numbers and quotes to texts, and the
tables give every operator its own sign.  A name is a single word without a kind, since the words
that have one are all reserved (`Vocabulary.Reserving`); that is an invariant of the aliases.

    text  ─ lexical rules →  spelled tokens  ─ productions →  well spelled nodes

So every node of a program that is read with the vocabulary of the language, or with one that
requests have led to, is well spelled (`Aliases.wellSpelled_of_parseText`).
-/

namespace ScriptFrontend

open Grammar

/-! ## Lexemes -/

/-- A single word that has no kind of its own. -/
def Vocabulary.Nameable (vocabulary : Vocabulary) (name : String) : Prop :=
  SingleWord name ∧ vocabulary.kind? name = none

/-- One digit or more, and nothing else. -/
def Digits (value : String) : Prop := value ≠ "" ∧ ∀ c ∈ value.toList, Digit c

/-- **What the lexemes of a kind look like.** -/
def Kind.Admits (vocabulary : Vocabulary) (lexeme : String) : Kind → Prop
  | .identifier => vocabulary.Nameable lexeme
  | .number => Digits lexeme
  | .text => ∃ value : String, '"' ∉ value.toList ∧ lexeme = "\"" ++ value ++ "\""
  | .operator symbol => lexeme = symbol.sign
  | .keyword _ | .mark _ | .comment | .blockComment | .finish | .unknown => True

/-- Every word of the vocabulary is reserved. -/
def Vocabulary.Reserving (vocabulary : Vocabulary) : Prop :=
  ∀ word kind, vocabulary.kind? word = some kind → kind.isKeyword = true

section Lexemes

variable {vocabulary : Vocabulary} {text : String}

theorem admits_of_isSigned {kind : Kind} {lexeme : List Char} (h : kind.isSigned lexeme = true) :
    kind.Admits vocabulary (String.ofList lexeme) := by
  cases kind with
  | operator symbol =>
    obtain rfl : symbol.sign.toList = lexeme := by simpa [Kind.isSigned] using h
    exact String.ofList_toList
  | mark => trivial
  | _ => simp [Kind.isSigned] at h

/-- A word is a name, or it is reserved. -/
theorem admits_kindOf (hreserving : vocabulary.Reserving) {word : String}
    (hword : SingleWord word) : (vocabulary.kindOf word).Admits vocabulary word := by
  rw [Vocabulary.kindOf]
  cases hkind : vocabulary.kind? word with
  | none => exact ⟨hword, hkind⟩
  | some kind =>
    obtain ⟨given, rfl⟩ := Kind.isKeyword_iff.1 (hreserving word kind hkind)
    trivial

/-- **What a rule allows looks like its kind.** -/
theorem Rule.admits (hreserving : vocabulary.Reserving) {kind : Kind} {text lexeme : List Char}
    (h : Rule vocabulary text kind lexeme) : kind.Admits vocabulary (String.ofList lexeme) := by
  cases h with
  | @word first body _ hletter hbody _ =>
    exact admits_kindOf hreserving ⟨first, body, String.toList_ofList, hletter, hbody⟩
  | @number first body _ hdigit hbody _ =>
    refine ⟨by simp, ?_⟩
    rw [String.toList_ofList]
    exact List.forall_mem_cons.2 ⟨hdigit, hbody⟩
  | @text body _ hbody =>
    exact ⟨String.ofList body, by simpa using hbody, by simp [String.append_assoc]⟩
  | times => exact admits_of_isSigned (by decide)
  | pair hmem => exact admits_of_isSigned (isSigned_of_tables.2.2 _ hmem)
  | single hmem => exact admits_of_isSigned (isSigned_of_tables.2.1 _ hmem _ rfl)
  | solo hmem => exact admits_of_isSigned (isSigned_of_tables.1 _ hmem)
  | openText | lineComment | blockComment | openComment | lone | unknown => trivial

/-- A token that looks like its kind.  If it is a quoted text, the source has it like that. -/
structure Token.Spelled (vocabulary : Vocabulary) (text : String) (token : Token) : Prop where
  admits : token.kind.Admits vocabulary token.lexeme
  occurs : token.kind = .text → token.lexeme.toList <:+: text.toList

/-- **The tokens of a text are spelled like their kinds.** -/
theorem spelled_of_mem (hreserving : vocabulary.Reserving) {token : Token}
    (h : token ∈ tokens vocabulary text) : token.Spelled vocabulary text := by
  by_cases hfinish : token.kind = .finish
  · exact ⟨by rw [hfinish]; trivial, by simp [hfinish]⟩
  · obtain ⟨front, lexeme, after, htext, hrule, hlexeme⟩ := exists_rule h hfinish
    refine ⟨hlexeme ▸ hrule.admits hreserving, fun _ => ⟨front, after, ?_⟩⟩
    rw [hlexeme, String.toList_ofList, htext, List.append_assoc]

end Lexemes

/-! ## Nodes -/

/-- **The names of a node**: its own, and those of its parameters or fields. -/
def Node.names : Node → List String
  | .identifier name _ | .init name _ _ | .assign name _ _ | .macroRegion name _
  | .classDecl name _ _ | .alloc name _ _ | .free name _ => [name]
  | .function name others _ _ | .structDecl name others _ => name :: others
  | _ => []

/-- **A well spelled node.**  A literal is a number of digits, or a text without quotes that the
source has in quotes; an operator is one of the language; the names are single words and not in the
vocabulary. -/
def Node.WellSpelled (vocabulary : Vocabulary) (text : String) : Node → Prop
  | .literal value type _ =>
    type = "int" ∧ Digits value ∨
      type = "string" ∧ '"' ∉ value.toList ∧ ("\"" ++ value ++ "\"").toList <:+: text.toList
  | .binary _ operator _ _ =>
    operator ∈ ["==", "!=", "<", ">", "<=", ">=", "+", "-", "*", "/", "%"]
  | .unary operator _ _ => operator ∈ ["!", "-"]
  | n => ∀ name ∈ n.names, vocabulary.Nameable name

section Nodes

variable {vocabulary : Vocabulary} {text : String} {word : List Token} {n : Node}

theorem Token.Spelled.nameable {token : Token} (h : token.Spelled vocabulary text)
    (hkind : token.kind = .identifier) : vocabulary.Nameable token.lexeme := by
  have hadmits := h.admits
  rwa [hkind] at hadmits

theorem Token.Spelled.lexeme_eq {token : Token} {symbol : Operator}
    (h : token.Spelled vocabulary text) (hkind : token.kind = .operator symbol) :
    token.lexeme = symbol.sign := by
  have hadmits := h.admits
  rwa [hkind] at hadmits

theorem sign_mem_of_level (level : Level) : ∀ symbol ∈ level.operators,
    symbol.sign ∈ ["==", "!=", "<", ">", "<=", ">=", "+", "-", "*", "/", "%"] := by
  cases level <;> decide

/-- **Expressions over spelled tokens are well spelled**, by induction on the derivation. -/
theorem wellSpelled_of_expression {rank : Rank} (h : Expression rank word n)
    (hword : ∀ token ∈ word, token.Spelled vocabulary text) : n.WellSpelled vocabulary text := by
  induction h with
  | operand _ ih | primary _ ih => exact ih hword
  | @binary level symbol op front back left right _ hkind hmem _ _ _ =>
    have hop : op.lexeme = symbol.sign := (hword op (by simp)).lexeme_eq hkind
    exact hop ▸ sign_mem_of_level level symbol hmem
  | @unary op _ _ hop _ _ =>
    have hspelled := hword op (by simp)
    rcases hop with hop | hop <;> simp [Node.WellSpelled, hspelled.lexeme_eq hop, Operator.sign]
  | @number token hkind =>
    have hdigits := (hword token (by simp)).admits
    rw [hkind] at hdigits
    exact .inl ⟨rfl, hdigits⟩
  | @text token hkind =>
    have hspelled := hword token (by simp)
    obtain ⟨value, hquote, hlexeme⟩ : Kind.Admits vocabulary token.lexeme .text :=
      hkind ▸ hspelled.admits
    have hvalue : unwrapped token.lexeme = value := by rw [hlexeme, unwrapped_quotes]
    refine .inr ⟨rfl, hvalue.symm ▸ hquote, ?_⟩
    rw [hvalue, ← hlexeme]
    exact hspelled.occurs hkind
  | @identifier token hkind =>
    exact List.forall_mem_singleton.2 ((hword token (by simp)).nameable hkind)
  | group _ _ _ ih => exact ih fun token hmem => hword token (by simp [hmem])

/-- **Statements over spelled tokens are well spelled**: they have names only. -/
theorem wellSpelled_of_statement {form : StatementForm} (h : Statement form word n)
    (hword : ∀ token ∈ word, token.Spelled vocabulary text) : n.WellSpelled vocabulary text := by
  cases h with
  | init _ hname | assignment hname | macroRegion _ hname | classDecl _ hname | alloc _ hname
  | free _ hname =>
    exact List.forall_mem_singleton.2 ((hword _ (by simp)).nameable hname)
  | function _ hname _ hparameters =>
    refine List.forall_mem_cons.2 ⟨(hword _ (by simp)).nameable hname, ?_⟩
    exact hparameters.forall_mem fun token hmem => (hword token (by simp [hmem])).nameable
  | structDecl _ hname _ hfields =>
    refine List.forall_mem_cons.2 ⟨(hword _ (by simp)).nameable hname, ?_⟩
    exact hfields.forall_mem fun token hmem => (hword token (by simp [hmem])).nameable
  | ifElse | ifElseElse | forLoop | whileLoop | loop | repeatLoop | tryCatch | returnStmt
  | matchWith | async | await | mutex | start | throw | breakStmt | continueStmt =>
    exact List.forall_mem_nil _

/-- **Whatever is made of spelled tokens is well spelled.** -/
theorem Grammar.Construct.wellSpelled (h : Construct word n)
    (hword : ∀ token ∈ word, token.Spelled vocabulary text) : n.WellSpelled vocabulary text := by
  cases h with
  | statement h => exact wellSpelled_of_statement h hword
  | expression h => exact wellSpelled_of_expression h hword
  | case => exact List.forall_mem_nil _

end Nodes

/-! ## Programs -/

/-- **The nodes of a program are well spelled** if the words of the vocabulary are reserved. -/
theorem wellSpelled_of_reserving {vocabulary : Vocabulary} (hreserving : vocabulary.Reserving)
    {text : String} {tree n : Node} (h : parseText vocabulary text = .ok tree)
    (hn : n ∈ tree.walk) : n.WellSpelled vocabulary text := by
  by_cases hform : n.form = .program
  · cases n with
    | program => exact List.forall_mem_nil _
    | _ => simp [Node.form] at hform
  · obtain ⟨origin, horigin⟩ := exists_comesFrom h (List.mem_filter.2 ⟨hn, by simpa using hform⟩)
    refine horigin.spelled.wellSpelled fun token hmem => spelled_of_mem hreserving ?_
    exact List.mem_of_mem_drop (List.mem_of_mem_take hmem)

namespace Aliases

theorem reserving_standard : Vocabulary.standard.Reserving := by
  intro word kind hkind
  rw [Vocabulary.standard, Vocabulary.kind?, lookup_ofWords] at hkind
  obtain ⟨given, -, rfl⟩ := Option.map_eq_some_iff.1 hkind
  rfl

theorem reserving_vocabulary (aliases : Aliases) : aliases.vocabulary.Reserving := by
  intro word kind hkind
  rw [kind?_vocabulary] at hkind
  obtain ⟨given, -, rfl⟩ := Option.map_eq_some_iff.1 hkind
  rfl

/-- **Every node of a program is well spelled**, be it read with the vocabulary of the language or
with that of the aliases after any requests. -/
theorem wellSpelled_of_parseText {vocabulary : Vocabulary} {text : String} {tree : Node}
    (hvocabulary : vocabulary = .standard ∨
      ∃ requests, vocabulary = (history requests).vocabulary)
    (h : parseText vocabulary text = .ok tree) :
    ∀ n ∈ tree.walk, n.WellSpelled vocabulary text := by
  have hreserving : vocabulary.Reserving := by
    rcases hvocabulary with rfl | ⟨requests, rfl⟩
    · exact reserving_standard
    · exact reserving_vocabulary _
  exact fun n hn => wellSpelled_of_reserving hreserving h hn

/-- A condition that is written with an alias. -/
def aliasedCondition : String := "si (!x1 <= 20) \x7b f = \"a b\"; \x7d"

/-- The request that makes the alias known. -/
def aliasRequest : Request := .configure [(.string "si", .value (.string "IF"))]

/-- The tree of the condition. -/
def aliasedTree : Node :=
  programOf [.ifElse (.binary (.unary "!" (.identifier "x1" ⟨1, 6⟩) ⟨1, 5⟩) "<="
      (.literal "20" "int" ⟨1, 12⟩) ⟨1, 9⟩)
    [.assign "f" (.literal "a b" "string" ⟨1, 22⟩) ⟨1, 18⟩] none ⟨1, 1⟩]

theorem wellSpelled_aliasedTree :
    parseText (history [aliasRequest]).vocabulary aliasedCondition = .ok aliasedTree ∧
    ∀ n ∈ aliasedTree.walk,
      n.WellSpelled (history [aliasRequest]).vocabulary aliasedCondition := by
  have h : parseText (history [aliasRequest]).vocabulary aliasedCondition = .ok aliasedTree := by
    cbv
  exact ⟨h, wellSpelled_of_parseText (.inr ⟨[aliasRequest], rfl⟩) h⟩

end Aliases

end ScriptFrontend
