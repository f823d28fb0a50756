import ScriptFrontend.Proofs.Alias.Order
import ScriptFrontend.Proofs.Alias.Refusal
import ScriptFrontend.Proofs.Lexeme.Listed

/-!
# Proofs/Alias/Word — what may be an alias is what is read as one word

Two checks say what a word is.  The aliases are checked as whole texts (`isWord`); a text is cut
into words by the lexical rules, behind the rules for comments, operators and everything else.  Both
mean a letter with letters and digits behind it:

    isWord text  ↔  SingleWord text  ↔  the one token of the text has the kind of a reserved word

From left to right only the rule for words is about a letter (`tokens_of_singleWord`).  From right
to left no other rule gives the kind of a reserved word (`Rule.singleWord`), since the tables have
operators and marks only.
-/

namespace ScriptFrontend

variable {vocabulary : Vocabulary} {word text : String}

/-! ## From words to tokens -/

/-- A single word has no blank in it. -/
theorem SingleWord.not_mem (h : SingleWord word) {c : Char} (hgap : Cut.isGap c = true) :
    c ∉ word.toList := by
  obtain ⟨first, body, htext, hfirst, hbody⟩ := h
  have hnot : ¬ (Letter c ∨ Digit c) := not_alphanum_of_isGap hgap
  rw [htext]
  rintro (_ | ⟨_, hmem⟩)
  · exact hnot (.inl hfirst)
  · exact hnot (hbody c hmem)

/-- In particular it has no newline, so it is counted in columns. -/
theorem past_singleWord (h : SingleWord word) :
    Location.start.past word.toList = ⟨1, 1 + word.length⟩ := by
  have hnewline : '\n' ∉ word.toList := h.not_mem (by decide)
  have hall : ∀ c ∈ word.toList.reverse, (c != '\n') = true := by
    intro c hc
    rw [bne_iff_ne]
    rintro rfl
    exact hnewline (List.mem_reverse.1 hc)
  rw [past_start, List.count_eq_zero.2 hnewline, List.takeWhile_eq_self_iff.2 hall,
    List.length_reverse, String.length_toList]
  rfl

/-- **A single word is one token**, of the kind that the vocabulary gives it, if that is none of
comments and not that of the end. -/
theorem tokens_of_singleWord (h : SingleWord word)
    (hkept : (vocabulary.kindOf word).isDiscarded = false)
    (hfinish : vocabulary.kindOf word ≠ .finish) :
    tokens vocabulary word =
      [⟨vocabulary.kindOf word, word, ⟨1, 1⟩⟩, .finish ⟨1, 1 + word.length⟩] := by
  have hrule : Rule vocabulary (word.toList ++ []) (vocabulary.kindOf word) word.toList := by
    obtain ⟨first, body, htext, hfirst, hbody⟩ := h
    have hword : String.ofList (first :: body) = word := by rw [← htext, String.ofList_toList]
    rw [htext, ← hword]
    exact .word hfirst hbody (by simp)
  have hread := Reading.tokens_kept hrule hkept hfinish .start
  rw [List.append_nil, Reading.tokens_nil, past_singleWord h, String.ofList_toList] at hread
  exact hread

/-! ## From tokens to words -/

/-- **Only a single word has the kind of a reserved word.** -/
theorem Rule.singleWord {kind : Kind} {rest lexeme : List Char}
    (h : Rule vocabulary rest kind lexeme) (hkind : kind.isKeyword = true) :
    SingleWord (String.ofList lexeme) := by
  have hnot (hsigned : kind.isSigned lexeme = true) : SingleWord (String.ofList lexeme) := by
    cases kind <;> simp [Kind.isSigned, Kind.isKeyword] at hsigned hkind
  cases h with
  | @word first body _ hletter hbody _ => exact ⟨first, body, String.toList_ofList, hletter, hbody⟩
  | pair hmem => exact hnot (isSigned_of_tables.2.2 _ hmem)
  | single hmem => exact hnot (isSigned_of_tables.2.1 _ hmem _ rfl)
  | solo hmem => exact hnot (isSigned_of_tables.1 _ hmem)
  | number | text | openText | lineComment | blockComment | openComment | times | lone | unknown =>
    simp [Kind.isKeyword] at hkind

/-- **Whatever a text is read as**, its reserved words are single words. -/
theorem singleWord_of_mem_tokens {token : Token} (hmem : token ∈ tokens vocabulary text)
    (hkind : token.kind.isKeyword = true) : SingleWord token.lexeme := by
  have hfinish : token.kind ≠ .finish := by
    intro heq
    simp [heq, Kind.isKeyword] at hkind
  obtain ⟨_, lexeme, _, -, hrule, hlexeme⟩ := exists_rule hmem hfinish
  exact hlexeme ▸ hrule.singleWord hkind

/-- **The two checks agree** on every text that is to be a reserved word. -/
theorem singleWord_iff_tokens {kind : Keyword} (h : vocabulary.kind? word = some (.keyword kind)) :
    SingleWord word ↔
      tokens vocabulary word = [⟨.keyword kind, word, ⟨1, 1⟩⟩, .finish ⟨1, 1 + word.length⟩] := by
  have hkind : vocabulary.kindOf word = .keyword kind := Vocabulary.kindOf_eq_of_kind? h
  constructor
  · intro hword
    rw [← hkind]
    exact tokens_of_singleWord hword (by rw [hkind]; rfl) (by simp [hkind])
  · intro htokens
    exact singleWord_of_mem_tokens (htokens ▸ List.mem_cons_self) rfl

/-! ## Aliases -/

namespace Aliases

/-- **An alias that is known is read as the reserved word that it stands for.** -/
theorem tokens_of_known {requests : List Request} {kind : Keyword}
    (h : (history requests).kind? word = some kind) :
    tokens (history requests).vocabulary word =
      [⟨.keyword kind, word, ⟨1, 1⟩⟩, .finish ⟨1, 1 + word.length⟩] := by
  have hkind : (history requests).vocabulary.kind? word = some (.keyword kind) := by
    rw [kind?_vocabulary, base, h]
    rfl
  have hmem : word ∈ (history requests).entries.map Prod.fst := by
    by_contra hnot
    simp [kind?_eq_none_iff.2 hnot] at h
  obtain ⟨entry, hentry, rfl⟩ := List.mem_map.1 hmem
  exact (singleWord_iff_tokens hkind).1 ((sound_history requests).words entry hentry)

/-- What a granted configuration gives is known from then on. -/
theorem kind?_of_granted {requests later : List Request} {configuration : Configuration}
    {next : Aliases} {kind : Keyword}
    (h : (history requests).configure configuration = .ok next)
    (hgives : configuration.Gives word kind) :
    (history (requests ++ .configure configuration :: later)).kind? word = some kind := by
  have hcoherent : Coherent (history requests) configuration :=
    ((configureWithin_iff_coherent (sound_history requests)).1 ⟨next, h⟩).1
  rw [history_append, List.foldl_cons, after_of_granted h]
  exact kind?_foldl_after later (kind?_of_gives hcoherent h hgives)

/-- What is refused for being no single word is none. -/
theorem not_singleWord_of_refused {known : Aliases} {configuration : Configuration}
    (h : known.configure configuration = .error (.flaw (.notWord word))) : ¬ SingleWord word := by
  by_cases hreadable : configuration.Readable ∧ configuration.Within Json.recursionLimit
  · obtain ⟨-, hcollisions⟩ :=
      (configureWithin_eq_error_iff_of_readable hreadable.1 hreadable.2).1 h
    cases hcollisions
  · obtain ⟨refusal, hfirst⟩ := exists_first hreadable
    obtain rfl : refusal = .flaw (.notWord word) :=
      Except.error.inj ((configureWithin_of_first hfirst).symm.trans h)
    obtain ⟨_, hentry⟩ := hfirst.exists_fails
    cases hentry with
    | target htarget => cases htarget
    | «alias» _ _ _ hwords =>
      obtain ⟨_, ⟨hnot⟩⟩ := hwords.exists_fails
      exact hnot

/-- **The check of aliases and the reading of texts agree on what a word is.**

* A text that a vocabulary gives the kind of a reserved word passes the check exactly if it is read
  as that one token, from the first column of the first line to the end.
* Every alias that a granted configuration gives is read like that, whatever is requested later.
* No text that is refused as an alias for being no single word is ever read as a reserved word. -/
theorem isWord_agrees_with_tokens :
    (∀ (vocabulary : Vocabulary) (word : String) (kind : Keyword),
      vocabulary.kind? word = some (.keyword kind) →
        (isWord word = true ↔ tokens vocabulary word =
          [⟨.keyword kind, word, ⟨1, 1⟩⟩, .finish ⟨1, 1 + word.length⟩])) ∧
    (∀ (requests later : List Request) (configuration : Configuration) (next : Aliases),
      (history requests).configure configuration = .ok next →
        ∀ word kind, configuration.Gives word kind →
          tokens (history (requests ++ .configure configuration :: later)).vocabulary word =
            [⟨.keyword kind, word, ⟨1, 1⟩⟩, .finish ⟨1, 1 + word.length⟩]) ∧
    ∀ (requests : List Request) (configuration : Configuration) (word : String),
      (history requests).configure configuration = .error (.flaw (.notWord word)) →
        ∀ (vocabulary : Vocabulary) (text : String), ∀ token ∈ tokens vocabulary text,
          token.kind.isKeyword = true → token.lexeme ≠ word := by
  refine ⟨fun vocabulary word kind h => isWord_iff.trans (singleWord_iff_tokens h),
    fun requests later configuration next h word kind hgives =>
      tokens_of_known (kind?_of_granted h hgives), ?_⟩
  rintro requests configuration word hrefused vocabulary text token hmem hkind rfl
  exact not_singleWord_of_refused hrefused (singleWord_of_mem_tokens hmem hkind)

/-- A text with a blank in it is not read as it stands, though a vocabulary lists it; an alias is,
also behind a request that fails; and a text that has been refused never is. -/
theorem isWord_agrees_with_tokens_si :
    tokens ⟨[("a b", .keyword .ifWord)]⟩ "a b" ≠
      [⟨.keyword .ifWord, "a b", ⟨1, 1⟩⟩, .finish ⟨1, 4⟩] ∧
    tokens (history [siRequest, .load none]).vocabulary "si" =
      [⟨.keyword .ifWord, "si", ⟨1, 1⟩⟩, .finish ⟨1, 3⟩] ∧
    ∀ (vocabulary : Vocabulary) (text : String), ∀ token ∈ tokens vocabulary text,
      token.kind.isKeyword = true → token.lexeme ≠ "b c" := by
  obtain ⟨hlisted, hgranted, hrefused⟩ := isWord_agrees_with_tokens
  refine ⟨fun hread => ?_, ?_, hrefused [] faulty "b c" (by cbv)⟩
  · have hword := (hlisted ⟨[("a b", .keyword .ifWord)]⟩ "a b" .ifWord rfl).2 hread
    exact absurd hword (by decide +kernel)
  · exact hgranted [] [.load none] [(.string "si", .value (.string "IF"))] ⟨[("si", .ifWord)]⟩
      (by cbv) "si" .ifWord ⟨_, List.mem_cons_self, .named .ifWord, .text "si"⟩

end Aliases

end ScriptFrontend
