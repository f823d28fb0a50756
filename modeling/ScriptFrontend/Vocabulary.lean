import ScriptFrontend.Kind.Name

/-!
# Vocabulary — which words have a kind of their own

A `Vocabulary` lists words with their kinds.  A word that is not in it is an identifier
(`Vocabulary.kindOf`).  `Vocabulary.standard` is the vocabulary of the language; every kind in it is
that of a reserved word.  `Vocabulary.extend` adds words and lets the added ones win.
-/

namespace ScriptFrontend

/-- Words and their kinds; of equal words the first counts. -/
structure Vocabulary where
  entries : List (String × Kind)
  deriving DecidableEq, Inhabited

/-- The reserved words of the language as they are spelled by default. -/
def standardWords : List (String × Keyword) := [
  ("Start", .start), ("Return", .returnWord), ("Init", .init), ("if", .ifWord),
  ("else", .elseWord), ("for", .forWord), ("while", .whileWord), ("try", .tryWord),
  ("catch", .catchWord), ("throw", .throw), ("Loop", .loop), ("Repeat", .repeatWord),
  ("Match", .matchWord), ("Case", .case), ("Default", .default), ("Async", .async),
  ("Await", .await), ("Mutex", .mutex), ("Struct", .struct), ("Class", .classWord),
  ("Func", .func), ("Alloc", .alloc), ("Free", .free), ("Break", .breakWord),
  ("Continue", .continueWord), ("Defer", .defer)]

namespace Vocabulary

/-- The vocabulary whose words are all reserved. -/
def ofWords (words : List (String × Keyword)) : Vocabulary :=
  ⟨words.map fun entry => (entry.1, .keyword entry.2)⟩

/-- The vocabulary of the language. -/
def standard : Vocabulary := ofWords standardWords

/-- The kind that the vocabulary gives a word, if it has it. -/
def kind? (vocabulary : Vocabulary) (word : String) : Option Kind :=
  vocabulary.entries.lookup word

/-- The kind of a word: its own, or that of identifiers. -/
def kindOf (vocabulary : Vocabulary) (word : String) : Kind :=
  (vocabulary.kind? word).getD .identifier

/-- The vocabulary with further reserved words, which win over the words already there. -/
def extend (vocabulary : Vocabulary) (words : List (String × Keyword)) : Vocabulary :=
  ⟨vocabulary.entries.filter (fun entry => (words.lookup entry.1).isNone) ++
    (ofWords words).entries⟩

theorem kindOf_eq_of_kind? {vocabulary : Vocabulary} {word : String} {kind : Kind}
    (h : vocabulary.kind? word = some kind) : vocabulary.kindOf word = kind := by
  simp [kindOf, h]

end Vocabulary

end ScriptFrontend
