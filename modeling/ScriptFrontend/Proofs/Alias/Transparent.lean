import ScriptFrontend.Proofs.Alias.History
import ScriptFrontend.Proofs.Parse.Written

/-!
# Proofs/Alias/Transparent — aliases make no difference to what is read

A text with aliases can be written with the words of the language alone: every reserved word as the
language spells its kind, everything else as it is, with single spaces between (`withoutAliases`).
The language reads it as the text is read with the aliases: the tokens have the same kinds and, but
for reserved words, the same lexemes, and the programs are equal up to places
(`Aliases.transparent`).

Two facts meet here.  A word that is no reserved word with the aliases is none without them
(`Aliases.kindOf_cases`), since the vocabulary with aliases extends that of the language; and no
spelling of a reserved word comes into a tree.
-/

namespace ScriptFrontend

/-- How the language spells a reserved word of a kind, if it does. -/
def defaultSpelling? (word : Keyword) : Option String :=
  (standardWords.find? (·.2 == word)).map Prod.fst

/-- The lexeme of a token, reserved words being spelled as the language does. -/
def Token.respelled (token : Token) : String :=
  match token.kind with
  | .keyword word => (defaultSpelling? word).getD token.lexeme
  | _ => token.lexeme

/-- **Tokens written with the words of the language**, with single spaces between them. -/
def withoutAliases (tokens : List Token) : String :=
  joined ((unfinished tokens).map Token.respelled)

/-- An entry whose lexeme is that of the language if it is a reserved word. -/
def respelledEntry : Kind × List Char → Kind × List Char
  | (.keyword word, lexeme) =>
    (.keyword word, ((defaultSpelling? word).map String.toList).getD lexeme)
  | entry => entry

/-! ## Spellings in the language -/

/-- The words of the language are single words, with their kinds. -/
theorem standardWords_words : ∀ entry ∈ standardWords,
    isWord entry.1 = true ∧ Vocabulary.standard.kindOf entry.1 = .keyword entry.2 := by
  decide

theorem defaultSpelling?_of_mem {word : Keyword} {spelling : String}
    (h : (spelling, word) ∈ standardWords) :
    ∃ spelling, defaultSpelling? word = some spelling ∧ (spelling, word) ∈ standardWords := by
  cases hfind : standardWords.find? (·.2 == word) with
  | none => simpa using List.find?_eq_none.1 hfind _ h
  | some entry =>
    obtain rfl : entry.2 = word := by simpa using List.find?_some hfind
    exact ⟨entry.1, by rw [defaultSpelling?, hfind]; rfl, List.mem_of_find?_eq_some hfind⟩

/-- The language's spelling of a kind is a spelling of it. -/
theorem spelling_standard {word : Keyword} {spelling : String}
    (h : (spelling, word) ∈ standardWords) :
    Spelling .standard (.keyword word) spelling.toList := by
  obtain ⟨hword, hkind⟩ := standardWords_words _ h
  obtain ⟨first, body, hsplit, hletter, hbody⟩ := isWord_iff.1 hword
  rw [hsplit]
  refine .word hletter hbody ?_ rfl (by simp)
  rw [← hsplit, String.ofList_toList]
  exact hkind

namespace Aliases

variable {aliases : Aliases}

/-- With aliases a word is reserved or an identifier. -/
theorem kindOf_cases (aliases : Aliases) (word : String) :
    (∃ kind, aliases.vocabulary.kindOf word = .keyword kind) ∨
      aliases.vocabulary.kindOf word = .identifier ∧
        Vocabulary.standard.kindOf word = .identifier := by
  rw [Vocabulary.kindOf, kind?_vocabulary, Vocabulary.kindOf, Vocabulary.standard,
    Vocabulary.kind?, lookup_ofWords, base]
  cases aliases.kind? word with
  | some kind => exact .inl ⟨kind, rfl⟩
  | none =>
    cases standardWords.lookup word with
    | some kind => exact .inl ⟨kind, rfl⟩
    | none => exact .inr ⟨rfl, rfl⟩

/-- Whatever is no reserved word is spelled alike with aliases and without. -/
theorem spelling_of_not_keyword {kind : Kind} {lexeme : List Char}
    (h : Spelling aliases.vocabulary kind lexeme) (hkind : ∀ word, kind ≠ .keyword word) :
    Spelling .standard kind lexeme := by
  cases h with
  | @word first body kind hletter hbody hkindOf hkept hfinish =>
    rcases kindOf_cases aliases (String.ofList (first :: body)) with ⟨word, hword⟩ |
      ⟨hidentifier, hstandard⟩
    · exact absurd (hkindOf.symm.trans hword) (hkind word)
    · exact .word hletter hbody (hstandard.trans (hidentifier.symm.trans hkindOf)) hkept hfinish
  | number hdigit hbody => exact .number hdigit hbody
  | text hbody => exact .text hbody
  | times => exact .times
  | pair hmem => exact .pair hmem
  | single hmem => exact .single hmem
  | lone hmem => exact .lone hmem
  | solo hmem => exact .solo hmem
  | unknown hother => exact .unknown hother

/-- **A spelling with aliases is one in the language**, once the reserved words are respelled. -/
theorem spelling_respelled {entry : Kind × List Char}
    (h : Spelling aliases.vocabulary entry.1 entry.2)
    (hspelled : ∀ word, entry.1 = .keyword word → ∃ spelling, (spelling, word) ∈ standardWords) :
    Spelling .standard (respelledEntry entry).1 (respelledEntry entry).2 := by
  obtain ⟨kind, lexeme⟩ := entry
  cases kind with
  | keyword word =>
    obtain ⟨_, hsome⟩ := hspelled word rfl
    obtain ⟨spelling, hspelling, hmem⟩ := defaultSpelling?_of_mem hsome
    simp only [respelledEntry, hspelling]
    exact spelling_standard hmem
  | _ => exact spelling_of_not_keyword h (by simp [respelledEntry])

/-- What can be written with aliases can be written in the language. -/
theorem writing_respelled {entries : List (Kind × List Char)} {text : List Char}
    (h : Writing aliases.vocabulary entries text)
    (hspelled : ∀ entry ∈ entries, ∀ word, entry.1 = .keyword word →
      ∃ spelling, (spelling, word) ∈ standardWords) :
    ∃ other, Writing .standard (entries.map respelledEntry) other := by
  induction h with
  | nil => exact ⟨[], .nil⟩
  | openText hbody => exact ⟨_, .openText hbody⟩
  | @cons kind lexeme gap text entries hspelling hgap hblank hsome _ ih =>
    obtain ⟨hfirst, hrest⟩ := List.forall_mem_cons.1 hspelled
    obtain ⟨other, hother⟩ := ih hrest
    exact ⟨_, .cons (spelling_respelled hspelling hfirst) hgap hblank (by simpa using hsome) hother⟩

end Aliases

/-! ## Texts -/

theorem entry_respelled (token : Token) :
    respelledEntry token.entry = (token.kind, token.respelled.toList) := by
  obtain ⟨kind, lexeme, place⟩ := token
  cases kind with
  | keyword word => cases hspelling : defaultSpelling? word <;>
      simp [respelledEntry, Token.entry, Token.respelled, hspelling]
  | _ => rfl

/-- Respelling leaves alone all kinds, and all lexemes but those of reserved words. -/
theorem same_respelledEntry (entry : Kind × List Char) :
    (respelledEntry entry).1 = entry.1 ∧
      (entry.1.isKeyword = false → (respelledEntry entry).2 = entry.2) := by
  obtain ⟨kind, lexeme⟩ := entry
  cases kind <;> simp [respelledEntry]

/-- Respelling leaves alone what may come into a tree. -/
theorem essenceOf_respelledEntry (entry : Kind × List Char) :
    essenceOf (respelledEntry entry) = essenceOf entry := by
  obtain ⟨kind, lexeme⟩ := entry
  cases kind <;> rfl

theorem toList_withoutAliases (list : List Token) :
    (withoutAliases list).toList =
      singleSpaced (((unfinished list).map Token.entry).map respelledEntry) := by
  simp only [withoutAliases, joined, singleSpaced, String.toList_intercalate, List.map_map,
    Function.comp_def, entry_respelled]
  rfl

/-- A text whose entries are the respelled ones has the same tokens, but for reserved words. -/
theorem tokens_same_of_entries {list others : List Token} {entries : List (Kind × List Char)}
    {last : Kind × List Char} (h : list.map Token.entry = entries ++ [last])
    (h' : others.map Token.entry = entries.map respelledEntry ++ [last]) :
    List.Forall₂ (fun token token' => token'.kind = token.kind ∧
      (token.kind.isKeyword = false → token'.lexeme = token.lexeme)) list others := by
  have hpairs : List.Forall₂ (fun entry entry' : Kind × List Char => entry'.1 = entry.1 ∧
      (entry.1.isKeyword = false → entry'.2 = entry.2))
      (list.map Token.entry) (others.map Token.entry) := by
    rw [h, h']
    refine List.rel_append (List.forall₂_map_right_iff.2 (List.forall₂_same.2 fun entry _ => ?_))
      (.cons ⟨rfl, fun _ => rfl⟩ .nil)
    exact same_respelledEntry entry
  refine (List.forall₂_map_right_iff.1 (List.forall₂_map_left_iff.1 hpairs)).imp ?_
  exact fun token token' h => ⟨h.1, fun hkind => String.toList_inj.1 (h.2 hkind)⟩

namespace Aliases

/-- **What is written without aliases has the respelled entries.** -/
theorem entries_withoutAliases (aliases : Aliases) {text : String}
    (hspelled : ∀ token ∈ tokens aliases.vocabulary text, ∀ word,
      token.kind = .keyword word → ∃ spelling, (spelling, word) ∈ standardWords) :
    ∃ entries, (tokens aliases.vocabulary text).map Token.entry = entries ++ [(.finish, [])] ∧
      (tokens .standard (withoutAliases (tokens aliases.vocabulary text))).map Token.entry =
        entries.map respelledEntry ++ [(.finish, [])] := by
  obtain ⟨entries, written, lexeme, hwriting, hlexeme, hentries⟩ :=
    exists_entries aliases.vocabulary text
  have hunfinished := entry_unfinished hentries hwriting.ne_finish
  -- no word with aliases ends a text
  obtain rfl : lexeme = [] := by
    refine hlexeme.resolve_right fun hfinish => ?_
    rcases kindOf_cases aliases (String.ofList lexeme) with ⟨word, hword⟩ | ⟨hword, -⟩ <;>
      simp [hword] at hfinish
  have hwords : ∀ entry ∈ entries, ∀ word, entry.1 = .keyword word →
      ∃ spelling, (spelling, word) ∈ standardWords := fun entry hmem word hkind => by
    have hmem : entry ∈ (tokens aliases.vocabulary text).map Token.entry := by
      simp [hentries, hmem]
    obtain ⟨token, htoken, rfl⟩ := List.mem_map.1 hmem
    exact hspelled token htoken word hkind
  obtain ⟨other, hother⟩ := writing_respelled hwriting hwords
  have hread := tokens_of_written .nil hother.singleSpaced
  rw [List.nil_append, ← hunfinished, ← toList_withoutAliases, String.ofList_toList,
    hunfinished] at hread
  exact ⟨entries, hentries, hread⟩

/-- **Aliases make no difference to what is read.**  After every history, a text whose reserved
words all have spellings in the language is read as it is when it is written in these: token by
token with the same kinds and the same lexemes but for those of reserved words, and to the same tree
up to places, or to a rejection at the same token. -/
theorem transparent (requests : List Request) (text : String)
    (hspelled : ∀ token ∈ tokens (history requests).vocabulary text, ∀ word,
      token.kind = .keyword word → ∃ spelling, (spelling, word) ∈ standardWords) :
    List.Forall₂
      (fun token token' => token'.kind = token.kind ∧
        (token.kind.isKeyword = false → token'.lexeme = token.lexeme))
      (tokens (history requests).vocabulary text)
      (tokens .standard (withoutAliases (tokens (history requests).vocabulary text))) ∧
    ReadAlike (history requests).vocabulary .standard text
      (withoutAliases (tokens (history requests).vocabulary text)) := by
  obtain ⟨entries, hentries, hread⟩ := entries_withoutAliases (history requests) hspelled
  refine ⟨tokens_same_of_entries hentries hread, readAlike_of_entries hentries hread ?_⟩
  rw [List.map_map]
  exact List.map_congr_left fun entry _ => (essenceOf_respelledEntry entry).symm

/-- A request for one alias. -/
def requestSi : Request := .configure [(.string "si", .value (.string "IF"))]

/-- The text `si(x) {}` with a comment behind it. -/
def textSi : String := "si(x) \x7b\x7d#y"

theorem transparent_si :
    (tokens (history [requestSi]).vocabulary textSi).map Token.entry =
      [(.keyword .ifWord, ['s', 'i']), (.mark .leftParen, ['(']), (.identifier, ['x']),
        (.mark .rightParen, [')']), (.mark .leftBrace, ['\x7b']), (.mark .rightBrace, ['\x7d']),
        (.finish, [])] ∧
    (∀ token ∈ tokens (history [requestSi]).vocabulary textSi, ∀ word,
      token.kind = .keyword word → ∃ spelling, (spelling, word) ∈ standardWords) ∧
    withoutAliases (tokens (history [requestSi]).vocabulary textSi) = "if ( x ) \x7b \x7d" ∧
    ReadAlike (history [requestSi]).vocabulary .standard textSi "if ( x ) \x7b \x7d" := by
  have htokens : tokens (history [requestSi]).vocabulary textSi =
      [⟨.keyword .ifWord, "si", ⟨1, 1⟩⟩, ⟨.mark .leftParen, "(", ⟨1, 3⟩⟩,
        ⟨.identifier, "x", ⟨1, 4⟩⟩, ⟨.mark .rightParen, ")", ⟨1, 5⟩⟩,
        ⟨.mark .leftBrace, "\x7b", ⟨1, 7⟩⟩, ⟨.mark .rightBrace, "\x7d", ⟨1, 8⟩⟩,
        .finish ⟨1, 11⟩] := by
    cbv
  have hspelled : ∀ token ∈ tokens (history [requestSi]).vocabulary textSi, ∀ word,
      token.kind = .keyword word → ∃ spelling, (spelling, word) ∈ standardWords := by
    rw [htokens]
    simp [standardWords, Token.finish]
  have hwithout : withoutAliases (tokens (history [requestSi]).vocabulary textSi) =
      "if ( x ) \x7b \x7d" := by
    rw [htokens]
    decide
  refine ⟨by rw [htokens]; decide, hspelled, hwithout, ?_⟩
  rw [← hwithout]
  exact (transparent [requestSi] textSi hspelled).2

end Aliases

end ScriptFrontend
