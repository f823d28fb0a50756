import ScriptFrontend.Parse.Program
import ScriptFrontend.Proofs.Alias.History
import ScriptFrontend.Proofs.Lexeme.Steps

/-!
# Proofs/Lexeme/Words — what a vocabulary decides

Under two vocabularies a text is cut at the same places.  A vocabulary is asked for the kind of a
whole word and for nothing else: neither where a word ends nor of anything that is no word
(`Cut.cut_letter`, `Cut.cut_eq_of_not_letter`).  So the calls for the next token go on side by side,
whatever kinds the two give, and only the kinds of words can differ (`calls_of_vocabularies`).
-/

namespace ScriptFrontend

/-! ## Cuts -/

namespace Cut

variable (vocabulary other : Vocabulary) {first : Char} (rest : List Char)

/-- What does not start with a letter is cut without a vocabulary. -/
theorem cut_eq_of_not_letter (h : ¬ Letter first) :
    cut other first rest = cut vocabulary first rest := by
  have halpha : first.isAlpha = false := Bool.eq_false_iff.2 fun halpha => h (isAlpha_iff.1 halpha)
  simp [cut, halpha]

/-- **A cut takes a single word exactly if it starts with a letter.** -/
theorem singleWord_taken_iff :
    SingleWord (String.ofList (cut vocabulary first rest).taken) ↔ Letter first := by
  have hall := taken_append_left vocabulary first rest
  rw [SingleWord, String.toList_ofList]
  constructor
  · rintro ⟨c, body, htaken, hletter, -⟩
    rw [htaken] at hall
    exact (List.cons.inj hall).1 ▸ hletter
  · intro hletter
    rw [cut_letter hletter, word, whileTrue]
    have halphanum := isAlphanum_iff.2 (.inl hletter)
    refine ⟨first, rest.takeWhile Char.isAlphanum, ?_, hletter, fun c hc => ?_⟩
    · simp [halphanum]
    · exact isAlphanum_iff.1 (List.all_eq_true.1 List.all_takeWhile c hc)

end Cut

/-! ## Calls -/

/-- **Two calls that differ in the kind of a word at most**: a single word has the kind that the
vocabulary of the call gives it. -/
structure SameButWord (vocabulary other : Vocabulary) (one two : Token × Stream) : Prop where
  lexeme : two.1.lexeme = one.1.lexeme
  place : two.1.place = one.1.place
  stream : two.2 = one.2
  word : SingleWord one.1.lexeme →
    one.1.kind = vocabulary.kindOf one.1.lexeme ∧ two.1.kind = other.kindOf one.1.lexeme
  kind : ¬ SingleWord one.1.lexeme → two.1.kind = one.1.kind

namespace Stream

variable (vocabulary other : Vocabulary) {front gap back : List Char} {first : Char}
  {rest : List Char} {calls : List (Token × Stream)} {final : Token × Stream}

/-- The calls that take the same cut. -/
theorem sameButWord_cutCall :
    SameButWord vocabulary other (cutCall vocabulary front gap first rest)
      (cutCall other front gap first rest) := by
  have hsingle : SingleWord (String.ofList (Cut.cut vocabulary first rest).taken) ↔ Letter first :=
    Cut.singleWord_taken_iff vocabulary rest
  by_cases hletter : Letter first
  · simp only [cutCall, Cut.cut_letter hletter] at hsingle ⊢
    exact ⟨rfl, rfl, rfl, fun _ => ⟨rfl, rfl⟩, fun hnot => absurd (hsingle.2 hletter) hnot⟩
  · simp only [cutCall, Cut.cut_eq_of_not_letter vocabulary other rest hletter]
    exact ⟨rfl, rfl, rfl, fun hword => absurd (hsingle.1 hword) hletter, fun _ => rfl⟩

variable {vocabulary}

/-- **The calls under another vocabulary** go on side by side. -/
theorem exists_calls_other (h : Calls vocabulary (between front back) calls final) :
    ∃ others, Calls other (between front back) others final ∧
      List.Forall₂ (SameButWord vocabulary other) calls others := by
  refine calls_induction (motive := fun front back calls final =>
    ∃ others, Calls other (between front back) others final ∧
      List.Forall₂ (SameButWord vocabulary other) calls others) ?_ ?_ h
  · intro front gap hgap
    exact ⟨[], .final ((exhausted_between _ _).trans hgap) (nextToken_gap hgap), .nil⟩
  · rintro front gap first rest calls final hgap hfirst ⟨others, hothers, hsame⟩
    have hcall : SameButWord vocabulary other (cutCall vocabulary front gap first rest)
        (cutCall other front gap first rest) := sameButWord_cutCall vocabulary other
    refine ⟨cutCall other front gap first rest :: others, ?_, .cons hcall hsame⟩
    refine .more ((exhausted_between _ _).trans (all_isGap_append_cons hfirst))
      (nextToken_cut hgap hfirst) ?_
    have hstream : between (front ++ gap ++ (Cut.cut other first rest).taken)
        (Cut.cut other first rest).left = _ := hcall.stream
    exact hstream ▸ hothers

/-- Where the two vocabularies agree on the words, the calls are the same. -/
theorem eq_of_sameButWord {others : List (Token × Stream)}
    (h : List.Forall₂ (SameButWord vocabulary other) calls others)
    (hagree : ∀ call ∈ calls, SingleWord call.1.lexeme →
      vocabulary.kindOf call.1.lexeme = other.kindOf call.1.lexeme) : others = calls := by
  induction h with
  | nil => rfl
  | @cons one two _ _ hsame _ ih =>
    rw [List.forall_mem_cons] at hagree
    obtain ⟨⟨kind, lexeme, place⟩, stream⟩ := one
    obtain ⟨⟨kind', lexeme', place'⟩, stream'⟩ := two
    obtain ⟨rfl, rfl, rfl, hword, hkind⟩ := hsame
    have hkinds : kind' = kind := by
      by_cases hsingle : SingleWord lexeme'
      · obtain ⟨hone, htwo⟩ := hword hsingle
        exact htwo.trans ((hagree.1 hsingle).symm.trans hone.symm)
      · exact hkind hsingle
    rw [hkinds, ih hagree.2]

end Stream

/-- **A vocabulary decides the kinds of words and nothing else.**  Under two vocabularies the calls
for the next token on a text are as many, with the same lexemes at the same places, each leaves the
same stream behind, and the last one answers alike.  Kinds differ at single words only, where each
vocabulary gives its own.  If the two agree on the words that occur, then all kinds are the same,
and so are the tokens and what they are parsed as. -/
theorem calls_of_vocabularies (vocabulary other : Vocabulary) (text : String) :
    ∃ calls others final,
      (∀ list last, Stream.Calls vocabulary (.ofText text) list last ↔
        list = calls ∧ last = final) ∧
      (∀ list last, Stream.Calls other (.ofText text) list last ↔
        list = others ∧ last = final) ∧
      List.Forall₂ (SameButWord vocabulary other) calls others ∧
      ((∀ call ∈ calls, SingleWord call.1.lexeme →
          vocabulary.kindOf call.1.lexeme = other.kindOf call.1.lexeme) →
        others = calls ∧ tokens other text = tokens vocabulary text ∧
          parseText other text = parseText vocabulary text) := by
  obtain ⟨calls, final, hcalls⟩ := Stream.exists_calls vocabulary [] text.toList
  obtain ⟨others, hothers, hsame⟩ := Stream.exists_calls_other other hcalls
  refine ⟨calls, others, final, fun list last => ⟨hcalls.unique, ?_⟩,
    fun list last => ⟨hothers.unique, ?_⟩, hsame, fun hagree => ?_⟩
  · rintro ⟨rfl, rfl⟩
    exact hcalls
  · rintro ⟨rfl, rfl⟩
    exact hothers
  · have heq := Stream.eq_of_sameButWord other hsame hagree
    have htokens : tokens other text = tokens vocabulary text := by
      rw [tokens, tokens, Reading.start]
      exact (Stream.tokens_of_calls hothers).trans (heq ▸ (Stream.tokens_of_calls hcalls).symm)
    exact ⟨heq, htokens, by rw [parseText, parseText, htokens]⟩

/-- A vocabulary with a word that does not occur makes no difference. -/
theorem calls_of_vocabularies_absent :
    parseText ⟨[("x", .comment), ("y", .finish)]⟩ "x 1" = parseText ⟨[("x", .comment)]⟩ "x 1" := by
  obtain ⟨calls, others, final, hcalls, -, -, hagree⟩ :=
    calls_of_vocabularies ⟨[("x", .comment)]⟩ ⟨[("x", .comment), ("y", .finish)]⟩ "x 1"
  have hread : Stream.Calls ⟨[("x", .comment)]⟩ (.ofText "x 1")
      [(⟨.comment, "x", ⟨1, 1⟩⟩, ⟨"x 1".toList, 1, 1, 2⟩),
        (⟨.number, "1", ⟨1, 3⟩⟩, ⟨"x 1".toList, 3, 1, 4⟩)]
      (.finish ⟨1, 4⟩, ⟨"x 1".toList, 3, 1, 4⟩) :=
    .more rfl (by cbv) (.more rfl (by cbv) (.final rfl (by cbv)))
  obtain ⟨rfl, -⟩ := (hcalls _ _).1 hread
  obtain ⟨-, -, hsame⟩ := hagree (List.forall_mem_cons.2 ⟨fun _ => by decide +kernel,
    List.forall_mem_cons.2 ⟨fun _ => by decide +kernel, List.forall_mem_nil _⟩⟩)
  exact hsame

/-- A word may end the text or be left out like a comment; entries for what is no word are of no
effect. -/
example : tokens ⟨[("x", .comment), ("=", .finish), ("1", .text), ("y", .finish)]⟩ "x = 1 y z" =
    [⟨.operator .assign, "=", ⟨1, 3⟩⟩, ⟨.number, "1", ⟨1, 5⟩⟩, ⟨.finish, "y", ⟨1, 7⟩⟩] := by cbv

end ScriptFrontend
