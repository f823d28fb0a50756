import ScriptFrontend.Proofs.Lexeme.Spelling
import ScriptFrontend.Proofs.Parse.Alike

/-!
# Proofs/Parse/Written — what has been read can be written out and read again

The tokens of a text, but for the end, are entries that can be written out (`exists_entries`).
Whatever is between them, the same tokens are read again; and so is the same program, up to places
(`written_read_again`).  The plainest way to write them is with single spaces (`joined`).
-/

namespace ScriptFrontend

variable {vocabulary vocabulary' : Vocabulary}

/-! ## Entries and tokens -/

/-- The tokens but for the end. -/
def unfinished (tokens : List Token) : List Token := tokens.filter (·.kind != .finish)

/-- Lexemes with single spaces between them. -/
def joined (lexemes : List String) : String := " ".intercalate lexemes

/-- What of an entry may come into a tree. -/
def essenceOf (entry : Kind × List Char) : Token :=
  ⟨entry.1, if entry.1.isNamed then String.ofList entry.2 else "", .unplaced⟩

theorem essence_eq (token : Token) : token.essence = essenceOf token.entry := by
  simp [Token.essence, essenceOf, Token.entry]

/-- **The tokens of a text are entries that can be written, and the end.** -/
theorem exists_entries (vocabulary : Vocabulary) (text : String) :
    ∃ entries written lexeme, Writing vocabulary entries written ∧
      (lexeme = [] ∨ vocabulary.kindOf (String.ofList lexeme) = .finish) ∧
      (tokens vocabulary text).map Token.entry = entries ++ [(.finish, lexeme)] :=
  Reading.exists_writing vocabulary (Reading.start text)

/-- **What is written behind a separator is read again.** -/
theorem tokens_of_written {front text : List Char} {entries : List (Kind × List Char)}
    (hfront : Separator front) (h : Writing vocabulary entries text) :
    (tokens vocabulary (String.ofList (front ++ text))).map Token.entry =
      entries ++ [(.finish, [])] := by
  rw [tokens, Reading.start, String.toList_ofList, Reading.tokens_separator hfront]
  exact Reading.tokens_of_writing h _

/-- No entry that can be written is the end. -/
theorem Writing.ne_finish {entries : List (Kind × List Char)} {text : List Char}
    (h : Writing vocabulary entries text) : ∀ entry ∈ entries, entry.1 ≠ .finish := by
  induction h with
  | nil => simp
  | openText => simp
  | cons hspelling _ _ _ _ ih => exact List.forall_mem_cons.2 ⟨hspelling.kept.2, ih⟩

section Entries

variable {list : List Token} {entries : List (Kind × List Char)} {lexeme : List Char}

theorem entry_unfinished (h : list.map Token.entry = entries ++ [(.finish, lexeme)])
    (hentries : ∀ entry ∈ entries, entry.1 ≠ .finish) :
    (unfinished list).map Token.entry = entries := by
  have hfilter : (unfinished list).map Token.entry =
      (list.map Token.entry).filter (·.1 != .finish) := by
    rw [List.filter_map]
    rfl
  rw [hfilter, h, List.filter_append, List.filter_eq_self.2 fun entry hmem => by
    simpa using hentries entry hmem]
  simp

theorem finish_mem (h : list.map Token.entry = entries ++ [(.finish, lexeme)]) :
    ∃ token ∈ list, token.kind = .finish := by
  have hmem : (Kind.finish, lexeme) ∈ list.map Token.entry := by simp [h]
  obtain ⟨token, hmem, hentry⟩ := List.mem_map.1 hmem
  exact ⟨token, hmem, congrArg Prod.fst hentry⟩

end Entries

/-- Among the tokens of a text is its end. -/
theorem exists_finish_mem (vocabulary : Vocabulary) (text : String) :
    ∃ token ∈ tokens vocabulary text, token.kind = .finish := by
  obtain ⟨entries, written, lexeme, -, -, hentries⟩ := exists_entries vocabulary text
  exact finish_mem hentries

/-- Texts whose entries are the same but for the spelling of words and marks are read alike. -/
theorem readAlike_of_entries {text text' : String} {entries entries' : List (Kind × List Char)}
    {lexeme lexeme' : List Char}
    (h : (tokens vocabulary text).map Token.entry = entries ++ [(.finish, lexeme)])
    (h' : (tokens vocabulary' text').map Token.entry = entries' ++ [(.finish, lexeme')])
    (hsame : entries.map essenceOf = entries'.map essenceOf) :
    ReadAlike vocabulary vocabulary' text text' := by
  have hessence (list : List Token) :
      list.map Token.essence = (list.map Token.entry).map essenceOf := by
    rw [List.map_map]
    exact List.map_congr_left fun token _ => essence_eq token
  refine readAlike_of_essence (finish_mem h) (finish_mem h') ?_
  rw [hessence, hessence, h, h', List.map_append, List.map_append, hsame]
  rfl

theorem toList_joined (list : List Token) :
    (joined (list.map Token.lexeme)).toList = singleSpaced (list.map Token.entry) := by
  simp only [joined, singleSpaced, String.toList_intercalate, List.map_map]
  rfl

/-- **Writing tokens out and reading them again is the identity.**  Entries are read from all texts
that they can be written as, behind any separator.  So are the tokens of a text, written with single
spaces; and then the same program is read from them, or the same rejection. -/
theorem written_read_again (vocabulary : Vocabulary) :
    (∀ front entries text, Separator front → Writing vocabulary entries text →
      (tokens vocabulary (String.ofList (front ++ text))).map Token.entry =
        entries ++ [(.finish, [])]) ∧
    ∀ text,
      (tokens vocabulary (joined ((unfinished (tokens vocabulary text)).map Token.lexeme))).map
        Token.entry = (unfinished (tokens vocabulary text)).map Token.entry ++ [(.finish, [])] ∧
      ReadAlike vocabulary vocabulary text
        (joined ((unfinished (tokens vocabulary text)).map Token.lexeme)) := by
  refine ⟨fun front entries text => tokens_of_written, fun text => ?_⟩
  obtain ⟨entries, written, lexeme, hwriting, -, hentries⟩ := exists_entries vocabulary text
  have hunfinished := entry_unfinished hentries hwriting.ne_finish
  have hjoined := tokens_of_written .nil hwriting.singleSpaced
  rw [List.nil_append, ← hunfinished, ← toList_joined, String.ofList_toList] at hjoined
  refine ⟨hjoined, readAlike_of_entries hentries hjoined ?_⟩
  rw [hunfinished]

/-- A name, a lone `~` and a quoted text that is left open, with comments in front and between. -/
theorem written_read_again_commented :
    Separator ['#', 'a', '\n'] ∧
    Writing .standard [(.identifier, ['x']), (.unknown, ['~']), (.unknown, ['"', 'i', 'f'])]
      ['x', ' ', '*', '*', 'b', '*', '*', '~', '\t', '"', 'i', 'f'] ∧
    (tokens .standard (String.ofList (['#', 'a', '\n'] ++
        ['x', ' ', '*', '*', 'b', '*', '*', '~', '\t', '"', 'i', 'f']))).map Token.entry =
      [(.identifier, ['x']), (.unknown, ['~']), (.unknown, ['"', 'i', 'f'])] ++
        [(.finish, [])] := by
  have hfront : Separator ('#' :: (['a'] ++ '\n' :: [])) := .lineComment (by decide) .nil
  have hgap : Separator (' ' :: '*' :: '*' :: (['b'] ++ '*' :: '*' :: [])) := by
    refine .blank (by decide) (.blockComment (fun front back heq => ?_) (by decide) .nil)
    have hlength := congrArg List.length heq
    simp at hlength
    omega
  have hname : Spelling .standard .identifier ['x'] :=
    .word (.inl (by decide)) (by simp) (by decide) rfl (by decide)
  have hopen : Writing .standard [(.unknown, ['"', 'i', 'f'])] ['"', 'i', 'f'] :=
    .openText (by decide)
  have htilde : Writing .standard [(.unknown, ['~']), (.unknown, ['"', 'i', 'f'])]
      (['~'] ++ (['\t'] ++ ['"', 'i', 'f'])) :=
    .cons (.lone (by decide)) (.blank (by decide) .nil) (by simp [Cut.isGap]) (by simp) hopen
  have hwriting := Writing.cons hname hgap (by simp [Cut.isGap]) (by simp) htilde
  exact ⟨hfront, hwriting, (written_read_again .standard).1 _ _ _ hfront hwriting⟩

end ScriptFrontend
