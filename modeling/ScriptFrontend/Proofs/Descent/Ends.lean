import ScriptFrontend.Proofs.Descent.Rank
import ScriptFrontend.Proofs.Descent.Routine

/-!
# Proofs/Descent/Ends — the routines of the parser come to an end

    program ▸ blockRest ▸ statement ▸ form ▸ block ▸ expression ▸ levels ▸ unary ▸ primary ▸ …

In front of its first token a routine calls only what stands to the right of it.  All but the loops
over the statements of a program, over operands and over names consume a token wherever they answer.
So the routines pass the checks of `Ranked`, and whatever follows from these holds of them:
`Ranked.below_of_makes`, `Ranked.below_of_reaches` and `Ranked.ends`.
-/

namespace ScriptFrontend

open Descent

/-- What the routines of the parser are, apart from what they are given. -/
inductive Method where
  | program | statement | form | block | blockRest | entries | names | fields | skipped | expression
  | level (level : Level)
  | joined | unary | primary
  deriving DecidableEq

/-- The level of a method.  A method calls lower ones only, in front of its first token. -/
def Method.rank : Method → Nat
  | program => 17
  | blockRest => 16
  | statement => 15
  | form => 14
  | block => 13
  | expression => 12
  | level .equality => 11
  | level .comparison => 10
  | level .term => 9
  | level .factor => 8
  | unary => 7
  | primary => 6
  | joined => 5
  | entries => 4
  | names => 3
  | fields => 2
  | skipped => 1

namespace Routine

variable {α : Type}

/-- The method of a routine. -/
def method : {α : Type} → Routine α → Method
  | _, program _ => .program
  | _, statement => .statement
  | _, form _ => .form
  | _, block _ => .block
  | _, blockRest _ _ => .blockRest
  | _, entries _ => .entries
  | _, names _ => .names
  | _, fields _ => .fields
  | _, skipped _ => .skipped
  | _, expression => .expression
  | _, level l => .level l
  | _, joined _ _ => .joined
  | _, unary => .unary
  | _, primary => .primary

/-- Whether a routine consumes a token wherever it answers. -/
def consumes (routine : Routine α) : Bool :=
  match routine.method with
  | .program | .names | .joined => false
  | _ => true

/-- **The levels of the routines**, and which of them consume. -/
def ranks : Ranks Routine := ⟨fun routine => routine.method.rank, consumes⟩

/-! ## What consumes -/

theorem takes_statementText : statementText.Takes ranks
  | none => trivial
  | some token => by
    simp only
    split <;> trivial

theorem takes_entryText (read : Parser.Entries) : (entryText read).Takes ranks := by
  refine takes_ifNext.2 ⟨.inl trivial, takes_ifNext.2 ⟨?_, trivial⟩⟩
  unfold defaultText
  split
  · trivial
  · exact .inl trivial

theorem takes_skippedText (missing : Expectation) : (skippedText missing).Takes ranks
  | none => trivial
  | some token => by
    simp only
    split
    · exact .inl trivial
    · exact .inl trivial

/-- Behind its first token a form of statement takes one that belongs to it, or reads a part that
consumes. -/
theorem takes_formText (head : Token) (f : StatementForm) : (formText head f).Takes ranks := by
  cases f <;> simp [formText, Code.Takes, initText, parenthesisedText, valueText, bareText,
    blockText, ranks, consumes, method]

theorem takes_unaryText : unaryText.Takes ranks := by
  simp [unaryText, signText, Code.Takes, ranks, consumes, method]

theorem takes_primaryText : primaryText.Takes ranks := by
  simp [primaryText, groupText, Code.Takes]

/-- **What is said to consume does so.** -/
theorem takes_text (routine : Routine α) (h : ranks.consumes routine) :
    routine.text.Takes ranks := by
  cases routine with
  | program | names | joined => cases h
  | statement => exact takes_statementText
  | form f => exact .inr fun head => takes_formText head f
  | block => exact .inl trivial
  | blockRest => exact takes_untilClose (.inl rfl)
  | entries read => exact takes_untilClose (takes_entryText read)
  | fields => exact takes_untilClose (.inl (.inl trivial))
  | skipped missing => exact takes_skippedText missing
  | expression => rfl
  | level l => cases l <;> exact .inl rfl
  | unary => exact takes_unaryText
  | primary => exact takes_primaryText

/-! ## What is called in front of the first token -/

/-- A form of statement calls what belongs to statements. -/
theorem guarded_formText (head : Token) (f : StatementForm) :
    (formText head f).Guarded ranks Method.form.rank := by
  cases f <;> simp [formText, Code.Takes, Code.Guarded, initText, parenthesisedText, valueText,
    bareText, blockText, ranks, consumes, method, Method.rank]

theorem guarded_programText (read : List Node) :
    (programText read).Guarded ranks Method.program.rank
  | none => trivial
  | some _ => ⟨(by decide : Method.statement.rank < Method.program.rank), .inl rfl⟩

theorem guarded_statementText : statementText.Guarded ranks Method.statement.rank
  | none => trivial
  | some token => by
    simp only
    split
    · exact (by decide : Method.form.rank < Method.statement.rank)
    · trivial

theorem guarded_entryText (read : Parser.Entries) (level : Nat) :
    (entryText read).Guarded ranks level := by
  refine guarded_ifNext.2 ⟨⟨trivial, .inl trivial⟩, guarded_ifNext.2 ⟨?_, trivial⟩⟩
  unfold defaultText
  split
  · trivial
  · exact ⟨trivial, .inl trivial⟩

theorem guarded_skippedText (missing : Expectation) (level : Nat) :
    (skippedText missing).Guarded ranks level
  | none => trivial
  | some token => by
    simp only
    split
    · exact guarded_map.2 trivial
    · exact ⟨trivial, .inl trivial⟩

/-- **In front of its first token a routine calls lower ones only.** -/
theorem guarded_text (routine : Routine α) :
    routine.text.Guarded ranks (ranks.level routine) := by
  cases routine with
  | program read => exact guarded_programText read
  | statement => exact guarded_statementText
  | form f => exact ⟨trivial, .inr fun head => guarded_formText head f⟩
  | block => exact ⟨trivial, .inl trivial⟩
  | blockRest =>
    have hlower : Method.statement.rank < Method.blockRest.rank := by decide
    exact guarded_untilClose (guarded_map.2 hlower) (.inl rfl)
  | entries read => exact guarded_untilClose (guarded_entryText read _) (takes_entryText read)
  | names | joined =>
    rw [text]
    exact guarded_whileNext
  | fields =>
    exact guarded_untilClose (guarded_map.2 ⟨trivial, .inl trivial⟩) (.inl (.inl trivial))
  | skipped missing => exact guarded_skippedText missing _
  | expression => exact (by decide : (Method.level .equality).rank < Method.expression.rank)
  | level l =>
    have hlower : (operand l).method.rank < (Method.level l).rank := by cases l <;> decide
    exact ⟨hlower, .inl (by cases l <;> rfl)⟩
  | unary => simp [text, unaryText, signText, Code.Takes, Code.Guarded, ranks, method, Method.rank]
  | primary => simp [text, primaryText, groupText, Code.Takes, Code.Guarded]

end Routine

/-- **The routines of the parser are ranked.** -/
theorem ranked (stop : Token) : Ranked (descent stop) Routine.ranks :=
  ⟨Routine.takes_text, Routine.guarded_text⟩

end ScriptFrontend
