import ScriptFrontend.Proofs.Lexeme.Rule
import ScriptFrontend.Proofs.Lexeme.Tiling

/-!
# Proofs/Lexeme/Spelling — writing tokens out and reading them again

A list of kinds with lexemes is written out by putting **separators** between the lexemes: blanks,
and comments that are closed.  `Writing vocabulary entries text` says that a text is such a writing
of the entries, each lexeme being a spelling of its kind.  Reading takes the separators out again
and gives the entries back (`tokens_of_writing`):

    entries  —Writing→  text  —tokens→  entries, finish

A separator behind a lexeme starts with a blank.  That is all that is needed, since no lexeme of a
`Spelling` can be carried on by a blank (`Spelling.rule`); and what a text is read as can always be
written out once more (`exists_writing`), with single spaces if need be (`Writing.singleSpaced`).
-/

namespace ScriptFrontend

variable {vocabulary : Vocabulary}

/-! ## Spellings and separators -/

/-- **The spellings of the kinds** that reach a parser, but for the end and for a quoted text that
is left open. -/
inductive Spelling (vocabulary : Vocabulary) : Kind → List Char → Prop where
  /-- A word, whatever kind but those of comments and of the end the vocabulary gives it. -/
  | word {first : Char} {body : List Char} {kind : Kind} :
    Letter first → (∀ c ∈ body, Letter c ∨ Digit c) →
    vocabulary.kindOf (String.ofList (first :: body)) = kind →
    kind.isDiscarded = false → kind ≠ .finish → Spelling vocabulary kind (first :: body)
  | number {first : Char} {body : List Char} :
    Digit first → (∀ c ∈ body, Digit c) → Spelling vocabulary .number (first :: body)
  | text {body : List Char} : '"' ∉ body → Spelling vocabulary .text ('"' :: (body ++ ['"']))
  | times : Spelling vocabulary (.operator .times) ['*']
  | pair {first second : Char} {kind : Kind} :
    ((first, second), kind) ∈ pairTable → Spelling vocabulary kind [first, second]
  | single {first : Char} {kind : Kind} :
    (first, some kind) ∈ operatorTable → Spelling vocabulary kind [first]
  | lone {first : Char} : (first, none) ∈ operatorTable → Spelling vocabulary .unknown [first]
  | solo {first : Char} {kind : Kind} :
    (first, kind) ∈ soloTable → Spelling vocabulary kind [first]
  | unknown {first : Char} : Other first → Spelling vocabulary .unknown [first]

/-- **What may stand between lexemes**: blanks, comments up to and with the end of their line, and
comments between pairs of stars. -/
inductive Separator : List Char → Prop where
  | nil : Separator []
  | blank {c : Char} {rest : List Char} :
    Cut.isGap c = true → Separator rest → Separator (c :: rest)
  | lineComment {body rest : List Char} :
    '\n' ∉ body → Separator rest → Separator ('#' :: (body ++ '\n' :: rest))
  | blockComment {body rest : List Char} :
    (∀ front back, body ≠ front ++ '*' :: '*' :: back) → body.getLast? ≠ some '*' →
    Separator rest → Separator ('*' :: '*' :: (body ++ '*' :: '*' :: rest))

/-- **The texts that entries can be written as.**  What separates two lexemes is not empty, and what
stands behind a lexeme starts with a blank.  A quoted text may be left open at the very end. -/
inductive Writing (vocabulary : Vocabulary) : List (Kind × List Char) → List Char → Prop where
  | nil : Writing vocabulary [] []
  | openText {body : List Char} :
    '"' ∉ body → Writing vocabulary [(.unknown, '"' :: body)] ('"' :: body)
  | cons {kind : Kind} {lexeme gap text : List Char} {entries : List (Kind × List Char)} :
    Spelling vocabulary kind lexeme → Separator gap → (∀ c ∈ gap.head?, Cut.isGap c = true) →
    (entries ≠ [] → gap ≠ []) → Writing vocabulary entries text →
    Writing vocabulary ((kind, lexeme) :: entries) (lexeme ++ (gap ++ text))

theorem separator_space : Separator [' '] := .blank (by decide) .nil

/-- The kind and the lexeme of a token. -/
def Token.entry (token : Token) : Kind × List Char := (token.kind, token.lexeme.toList)

@[simp] theorem Token.entry_ofList (kind : Kind) (lexeme : List Char) (place : Location) :
    Token.entry ⟨kind, String.ofList lexeme, place⟩ = (kind, lexeme) :=
  congrArg _ String.toList_ofList

@[simp] theorem Token.entry_finish (place : Location) :
    Token.entry (.finish place) = (.finish, []) := rfl

/-! ## Blanks carry nothing on -/

theorem not_tabled_of_isGap {c : Char} (h : Cut.isGap c = true) : ¬ Tabled c := by
  rcases isGap_iff.1 h with rfl | rfl | rfl | rfl <;> simp [Tabled, soloTable, operatorTable]

theorem not_opening_of_isGap {c : Char} (h : Cut.isGap c = true) : ¬ Opening c := by
  rintro (rfl | rfl | rfl)
  · exact absurd h (by decide)
  · exact absurd h (by decide)
  · exact absurd h (by decide)

theorem not_alphanum_of_isGap {c : Char} (h : Cut.isGap c = true) : ¬ (Letter c ∨ Digit c) := by
  rw [← isAlphanum_iff]
  rcases isGap_iff.1 h with rfl | rfl | rfl | rfl <;> decide

/-- No pair of characters that is one operator ends in a blank. -/
theorem not_pair_of_isGap {first c : Char} {kind : Kind} (h : Cut.isGap c = true) :
    ((first, c), kind) ∉ pairTable := fun hmem => by
  have hall : ∀ entry ∈ pairTable, Cut.isGap entry.1.2 = false := by decide
  simp [hall _ hmem] at h

/-- No rule is about a blank. -/
theorem Rule.not_isGap {first : Char} {rest lexeme : List Char} {kind : Kind}
    (h : Rule vocabulary (first :: rest) kind lexeme) : Cut.isGap first = false := by
  rw [Bool.eq_false_iff]
  intro hgap
  have htabled := not_tabled_of_isGap hgap
  have hopening := not_opening_of_isGap hgap
  have halphanum := not_alphanum_of_isGap hgap
  generalize htext : first :: rest = text at h
  cases h with
  | word hletter =>
    obtain ⟨rfl, -⟩ := List.cons.inj htext
    exact halphanum (.inl hletter)
  | number hdigit =>
    obtain ⟨rfl, -⟩ := List.cons.inj htext
    exact halphanum (.inr hdigit)
  | text | openText =>
    obtain ⟨rfl, -⟩ := List.cons.inj htext
    exact hopening (.inr (.inr rfl))
  | lineComment =>
    obtain ⟨rfl, -⟩ := List.cons.inj htext
    exact hopening (.inl rfl)
  | blockComment | openComment | times =>
    obtain ⟨rfl, -⟩ := List.cons.inj htext
    exact hopening (.inr (.inl rfl))
  | pair hpair =>
    obtain ⟨rfl, -⟩ := List.cons.inj htext
    obtain ⟨alone, hlookup⟩ := Option.isSome_iff_exists.1 (operatorTable_of_pairTable _ hpair)
    exact htabled (.inr (List.mem_map_of_mem (Cut.mem_of_lookup hlookup)))
  | single hmem | lone hmem =>
    obtain ⟨rfl, -⟩ := List.cons.inj htext
    exact htabled (.inr (List.mem_map_of_mem hmem))
  | solo hmem =>
    obtain ⟨rfl, -⟩ := List.cons.inj htext
    exact htabled (.inl (List.mem_map_of_mem hmem))
  | unknown hother =>
    obtain ⟨rfl, -⟩ := List.cons.inj htext
    exact hother.gap (by simpa [Cut.isGap, or_assoc] using hgap)

/-- Behind a body without a pair of stars that ends in none, the first pair is the one put there. -/
theorem stars_at_end {body : List Char} (hbody : ∀ front back, body ≠ front ++ '*' :: '*' :: back)
    (hlast : body.getLast? ≠ some '*') (front back : List Char)
    (h : body ++ ['*', '*'] = front ++ '*' :: '*' :: back) : back = [] := by
  rcases List.append_eq_append_iff.1 h with ⟨more, -, hmore⟩ | ⟨more, rfl, hmore⟩
  · have hlength := congrArg List.length hmore
    simp only [List.length_append, List.length_cons, List.length_nil] at hlength
    exact List.length_eq_zero_iff.1 (by omega)
  · -- the pair starts in the body, so the body ends in a star or has a pair of them
    rcases more with _ | ⟨c, _ | ⟨d, more⟩⟩
    · simpa using hmore
    · obtain ⟨rfl, -⟩ := List.cons.inj hmore
      simp at hlast
    · obtain ⟨rfl, rfl, -⟩ : '*' = c ∧ '*' = d ∧ back = more ++ ['*', '*'] := by simpa using hmore
      exact absurd rfl (hbody front more)

/-! ## Signs -/

/-- How an operator is written. -/
def Operator.sign : Operator → String
  | .assign => "="
  | .equal => "=="
  | .plus => "+"
  | .minus => "-"
  | .times => "*"
  | .divide => "/"
  | .modulo => "%"
  | .power => "^"
  | .not => "!"
  | .notEqual => "!="
  | .less => "<"
  | .greater => ">"
  | .lessEqual => "<="
  | .greaterEqual => ">="
  | .transition => "->"
  | .raise => "~>"
  | .config => "<~"
  | .throwArrow => "<-"
  | .rollback => "<<"
  | .run => ">>"
  | .specifier => "@"
  | .modifier => "$"
  | .pipe => "|"

/-- A kind of the tables: a mark, or an operator that is written like that. -/
def Kind.isSigned (lexeme : List Char) : Kind → Bool
  | .operator symbol => symbol.sign.toList == lexeme
  | .mark _ => true
  | _ => false

/-- **The tables write each operator in one way.** -/
theorem isSigned_of_tables :
    (∀ entry ∈ soloTable, entry.2.isSigned [entry.1] = true) ∧
    (∀ entry ∈ operatorTable, ∀ kind ∈ entry.2, kind.isSigned [entry.1] = true) ∧
    ∀ entry ∈ pairTable, entry.2.isSigned [entry.1.1, entry.1.2] = true := by
  decide

/-- Such a kind is none of comments and not that of the end. -/
theorem Kind.kept_of_isSigned {kind : Kind} {lexeme : List Char} (h : kind.isSigned lexeme = true) :
    kind.isDiscarded = false ∧ kind ≠ .finish := by
  cases kind with
  | operator | mark => exact ⟨rfl, by simp⟩
  | _ => simp [isSigned] at h

/-! ## Spellings and rules -/

/-- **In front of a blank or the end, a spelling follows a rule.** -/
theorem Spelling.rule {kind : Kind} {lexeme after : List Char}
    (h : Spelling vocabulary kind lexeme) (hafter : ∀ c ∈ after.head?, Cut.isGap c = true) :
    Rule vocabulary (lexeme ++ after) kind lexeme := by
  have hpair {first : Char} : ∀ c ∈ after.head?, ∀ other, ((first, c), other) ∉ pairTable :=
    fun c hc _ => not_pair_of_isGap (hafter c hc)
  have halphanum : ∀ c ∈ after.head?, ¬ (Letter c ∨ Digit c) :=
    fun c hc => not_alphanum_of_isGap (hafter c hc)
  cases h with
  | word hletter hbody hkind =>
    rw [← hkind]
    exact .word hletter hbody halphanum
  | number hdigit hbody => exact .number hdigit hbody fun c hc h => halphanum c hc (.inr h)
  | @text body hbody =>
    rw [List.cons_append, List.append_assoc]
    exact .text hbody
  | times =>
    refine .times ?_
    rintro c hc rfl
    exact not_opening_of_isGap (hafter _ hc) (.inr (.inl rfl))
  | pair hmem => exact .pair hmem
  | single hmem => exact .single hmem hpair
  | lone hmem => exact .lone hmem hpair
  | solo hmem => exact .solo hmem
  | unknown hother => exact .unknown hother

/-- A parser is given every kind that has spellings, and it ends no text. -/
theorem Spelling.kept {kind : Kind} {lexeme : List Char} (h : Spelling vocabulary kind lexeme) :
    kind.isDiscarded = false ∧ kind ≠ .finish := by
  cases h with
  | word _ _ _ hkept hfinish => exact ⟨hkept, hfinish⟩
  | pair hmem => exact Kind.kept_of_isSigned (isSigned_of_tables.2.2 _ hmem)
  | single hmem => exact Kind.kept_of_isSigned (isSigned_of_tables.2.1 _ hmem _ rfl)
  | solo hmem => exact Kind.kept_of_isSigned (isSigned_of_tables.1 _ hmem)
  | number | text | times | lone | unknown => exact ⟨rfl, by simp⟩

/-- Only a word can end a text. -/
theorem Rule.of_finish {text lexeme : List Char} (h : Rule vocabulary text .finish lexeme) :
    vocabulary.kindOf (String.ofList lexeme) = .finish := by
  generalize hkind : Kind.finish = kind at h
  have hnot {lexeme : List Char} (hsigned : kind.isSigned lexeme = true) : False :=
    (Kind.kept_of_isSigned hsigned).2 hkind.symm
  cases h with
  | word => rfl
  | pair hmem => exact (hnot (isSigned_of_tables.2.2 _ hmem)).elim
  | single hmem => exact (hnot (isSigned_of_tables.2.1 _ hmem _ rfl)).elim
  | solo hmem => exact (hnot (isSigned_of_tables.1 _ hmem)).elim
  | number | text | openText | lineComment | blockComment | openComment | times | lone | unknown =>
    cases hkind

/-- **What a rule allows and a parser is given is a spelling**, unless it is a quoted text that is
left open, which is all the rest. -/
theorem Rule.spelling {kind : Kind} {text lexeme : List Char}
    (h : Rule vocabulary text kind lexeme) (hkept : kind.isDiscarded = false)
    (hfinish : kind ≠ .finish) :
    Spelling vocabulary kind lexeme ∨
      ∃ body, '"' ∉ body ∧ kind = .unknown ∧ lexeme = '"' :: body ∧ text = lexeme := by
  cases h with
  | word hletter hbody => exact .inl (.word hletter hbody rfl hkept hfinish)
  | number hdigit hbody => exact .inl (.number hdigit hbody)
  | text hbody => exact .inl (.text hbody)
  | @openText body hbody => exact .inr ⟨body, hbody, rfl, rfl, rfl⟩
  | lineComment | blockComment | openComment => simp [Kind.isDiscarded] at hkept
  | times => exact .inl .times
  | pair hmem => exact .inl (.pair hmem)
  | single hmem => exact .inl (.single hmem)
  | lone hmem => exact .inl (.lone hmem)
  | solo hmem => exact .inl (.solo hmem)
  | unknown hother => exact .inl (.unknown hother)

/-! ## Reading on -/

namespace Reading

/-- A gap changes the place only. -/
theorem skipGap_cons {c : Char} (h : Cut.isGap c = true) (rest : List Char) (place : Location) :
    (⟨c :: rest, place⟩ : Reading).skipGap = (⟨rest, place.after c⟩ : Reading).skipGap := by
  simp [skipGap, h]

/-- A reading goes on until nothing but a gap is left. -/
theorem steps_eq (reading : Reading) :
    reading.steps vocabulary = reading.next vocabulary ::
      if reading.skipGap.rest = [] then [] else (reading.next vocabulary).2.steps vocabulary := by
  rw [steps]
  split
  next hnil => rw [if_pos hnil]
  next hmore => rw [if_neg (by simp [hmore])]

/-- Where nothing is left, the end is read. -/
theorem steps_nil (place : Location) :
    (⟨[], place⟩ : Reading).steps vocabulary = [(.finish place, ⟨[], place⟩)] := by
  rw [steps_eq]
  rfl

/-- A gap is read over. -/
theorem steps_gap {c : Char} (h : Cut.isGap c = true) (rest : List Char) (place : Location) :
    (⟨c :: rest, place⟩ : Reading).steps vocabulary =
      (⟨rest, place.after c⟩ : Reading).steps vocabulary := by
  have hskip := skipGap_cons h rest place
  have hnext : (⟨c :: rest, place⟩ : Reading).next vocabulary =
      (⟨rest, place.after c⟩ : Reading).next vocabulary := by
    simp only [next, hskip]
  simp only [steps_eq ⟨c :: rest, place⟩, steps_eq ⟨rest, place.after c⟩, hnext, hskip]

theorem tokens_nil (place : Location) :
    (⟨[], place⟩ : Reading).tokens vocabulary = [.finish place] := by
  rw [tokens, stepsToFinish, steps_nil]
  rfl

theorem tokens_gap {c : Char} (h : Cut.isGap c = true) (rest : List Char) (place : Location) :
    (⟨c :: rest, place⟩ : Reading).tokens vocabulary =
      (⟨rest, place.after c⟩ : Reading).tokens vocabulary := by
  simp only [tokens, stepsToFinish, steps_gap h]

section Rule

variable {kind : Kind} {lexeme after : List Char}

/-- **The first step of a reading** takes what a rule allows. -/
theorem steps_of_rule (h : Rule vocabulary (lexeme ++ after) kind lexeme) (place : Location) :
    (⟨lexeme ++ after, place⟩ : Reading).steps vocabulary =
      (⟨kind, String.ofList lexeme, place⟩, ⟨after, place.past lexeme⟩) ::
        (⟨after, place.past lexeme⟩ : Reading).steps vocabulary := by
  rcases htext : lexeme ++ after with _ | ⟨first, rest⟩
  · rw [htext] at h
    cases h
  · rw [htext] at h
    obtain ⟨hkind, htaken⟩ := Cut.cut_of_rule h
    have hleft : (Cut.cut vocabulary first rest).left = after := by
      have hall := Cut.taken_append_left vocabulary first rest
      rw [htaken, ← htext] at hall
      exact List.append_cancel_left hall
    have hskip : (⟨first :: rest, place⟩ : Reading).skipGap = ⟨first :: rest, place⟩ := by
      simp [skipGap, h.not_isGap]
    have hnext : (⟨first :: rest, place⟩ : Reading).next vocabulary =
        (⟨kind, String.ofList lexeme, place⟩, ⟨after, place.past lexeme⟩) := by
      simp only [next, hskip, hkind, htaken, hleft]
    rw [steps_eq, hnext, hskip, if_neg (by simp)]

/-- A comment is read and left out. -/
theorem tokens_discarded (h : Rule vocabulary (lexeme ++ after) kind lexeme)
    (hkind : kind.isDiscarded = true) (place : Location) :
    (⟨lexeme ++ after, place⟩ : Reading).tokens vocabulary =
      (⟨after, place.past lexeme⟩ : Reading).tokens vocabulary := by
  have hfinish : kind ≠ .finish := by rintro rfl; simp [Kind.isDiscarded] at hkind
  simp [tokens, stepsToFinish, steps_of_rule h, takeThrough, hfinish, hkind]

/-- Any other token but one that ends the text is read and kept. -/
theorem tokens_kept (h : Rule vocabulary (lexeme ++ after) kind lexeme)
    (hkind : kind.isDiscarded = false) (hfinish : kind ≠ .finish) (place : Location) :
    (⟨lexeme ++ after, place⟩ : Reading).tokens vocabulary =
      ⟨kind, String.ofList lexeme, place⟩ ::
        (⟨after, place.past lexeme⟩ : Reading).tokens vocabulary := by
  simp [tokens, stepsToFinish, steps_of_rule h, takeThrough, hfinish, hkind]

/-- Behind a word that ends the text nothing is read. -/
theorem tokens_finish (h : Rule vocabulary (lexeme ++ after) .finish lexeme) (place : Location) :
    (⟨lexeme ++ after, place⟩ : Reading).tokens vocabulary =
      [⟨.finish, String.ofList lexeme, place⟩] := by
  simp [tokens, stepsToFinish, steps_of_rule h, takeThrough, Kind.isDiscarded]

end Rule

/-- **A separator is read over**, whatever is behind it. -/
theorem tokens_separator {gap : List Char} (h : Separator gap) (rest : List Char)
    (place : Location) :
    (⟨gap ++ rest, place⟩ : Reading).tokens vocabulary =
      (⟨rest, place.past gap⟩ : Reading).tokens vocabulary := by
  induction h generalizing place with
  | nil => rfl
  | blank hgap _ ih => rw [List.cons_append, tokens_gap hgap, ih, Location.past_cons]
  | @lineComment body gap hbody _ ih =>
    have hrule : Rule vocabulary ('#' :: body ++ '\n' :: (gap ++ rest)) .comment ('#' :: body) :=
      .lineComment hbody (by simp)
    have hsplit : '#' :: (body ++ '\n' :: gap) ++ rest =
        '#' :: body ++ '\n' :: (gap ++ rest) := by simp
    rw [hsplit, tokens_discarded hrule rfl, tokens_gap (by decide), ih]
    simp [Location.past_append]
  | @blockComment body gap hbody hlast _ ih =>
    have hclosed := stars_at_end hbody hlast
    have hrule : Rule vocabulary ('*' :: '*' :: (body ++ ['*', '*']) ++ (gap ++ rest))
        .blockComment ('*' :: '*' :: (body ++ ['*', '*'])) := by
      simpa using .blockComment hclosed
    have hsplit : '*' :: '*' :: (body ++ '*' :: '*' :: gap) ++ rest =
        '*' :: '*' :: (body ++ ['*', '*']) ++ (gap ++ rest) := by simp
    rw [hsplit, tokens_discarded hrule rfl, ih]
    simp [Location.past_append]

/-! ## The law -/

/-- **What is written is read again**, behind any separator. -/
theorem tokens_of_writing {entries : List (Kind × List Char)} {text : List Char}
    (h : Writing vocabulary entries text) (place : Location) :
    ((⟨text, place⟩ : Reading).tokens vocabulary).map Token.entry = entries ++ [(.finish, [])] := by
  induction h generalizing place with
  | nil => simp [tokens_nil]
  | @openText body hbody =>
    have hrule : Rule vocabulary ('"' :: body ++ []) .unknown ('"' :: body) := by
      simpa using .openText hbody
    have hread := tokens_kept hrule rfl (by simp) place
    rw [List.append_nil] at hread
    rw [hread, List.map_cons, Token.entry_ofList, tokens_nil]
    simp
  | @cons kind lexeme gap text entries hspelling hseparator hblank hgap hwriting ih =>
    have hafter : ∀ c ∈ (gap ++ text).head?, Cut.isGap c = true := by
      rcases gap with _ | ⟨d, gap⟩
      · have hnone : entries = [] := by simpa using hgap
        subst hnone
        cases hwriting
        simp
      · exact hblank
    obtain ⟨hkept, hfinish⟩ := hspelling.kept
    rw [tokens_kept (hspelling.rule hafter) hkept hfinish, tokens_separator hseparator,
      List.map_cons, Token.entry_ofList, ih, List.cons_append]

/-- **Readings are followed step by step**: what holds at the end of a text and is kept by a gap and
by a token in front holds of every reading and its steps. -/
theorem steps_induction {motive : List Char → Location → List (Token × Reading) → Prop}
    (nil : ∀ place, motive [] place [(.finish place, ⟨[], place⟩)])
    (gap : ∀ c rest place list, Cut.isGap c = true → motive rest (place.after c) list →
      motive (c :: rest) place list)
    (token : ∀ kind lexeme after place list, Rule vocabulary (lexeme ++ after) kind lexeme →
      motive after (place.past lexeme) list → list = (⟨after, place.past lexeme⟩ : Reading).steps
        vocabulary →
      motive (lexeme ++ after) place
        ((⟨kind, String.ofList lexeme, place⟩, ⟨after, place.past lexeme⟩) :: list))
    (rest : List Char) (place : Location) :
    motive rest place ((⟨rest, place⟩ : Reading).steps vocabulary) := by
  rcases rest with _ | ⟨first, rest⟩
  · rw [steps_nil]
    exact nil place
  by_cases hgap : Cut.isGap first = true
  · rw [steps_gap hgap]
    exact gap _ _ _ _ hgap (steps_induction nil gap token rest _)
  have hrule : Rule vocabulary (first :: rest) (Cut.cut vocabulary first rest).kind
      (Cut.cut vocabulary first rest).taken := Cut.rule_cut (Bool.eq_false_iff.2 hgap)
  have hall := Cut.taken_append_left vocabulary first rest
  have hless := Cut.length_left_lt vocabulary first rest
  generalize Cut.cut vocabulary first rest = cut at hrule hall hless
  obtain ⟨kind, lexeme, after⟩ := cut
  simp only at hrule hall hless
  have ih := steps_induction nil gap token after (place.past lexeme)
  rw [← hall] at hrule ⊢
  rw [steps_of_rule hrule]
  exact token _ _ _ _ _ hrule ih rfl
termination_by rest.length
decreasing_by
  · exact Nat.lt_succ_self _
  · exact hless

/-- The same of the tokens that a parser is given, the end and comments being told apart. -/
theorem tokens_induction {motive : List Char → Location → List Token → Prop}
    (nil : ∀ place, motive [] place [.finish place])
    (gap : ∀ c rest place list, Cut.isGap c = true → motive rest (place.after c) list →
      motive (c :: rest) place list)
    (discarded : ∀ kind lexeme after place list, Rule vocabulary (lexeme ++ after) kind lexeme →
      kind.isDiscarded = true → motive after (place.past lexeme) list →
      motive (lexeme ++ after) place list)
    (finish : ∀ lexeme after place, Rule vocabulary (lexeme ++ after) .finish lexeme →
      motive (lexeme ++ after) place [⟨.finish, String.ofList lexeme, place⟩])
    (kept : ∀ kind lexeme after place list, Rule vocabulary (lexeme ++ after) kind lexeme →
      kind.isDiscarded = false → kind ≠ .finish → motive after (place.past lexeme) list →
      list = (⟨after, place.past lexeme⟩ : Reading).tokens vocabulary →
      motive (lexeme ++ after) place (⟨kind, String.ofList lexeme, place⟩ :: list))
    (rest : List Char) (place : Location) :
    motive rest place ((⟨rest, place⟩ : Reading).tokens vocabulary) := by
  refine @steps_induction vocabulary (fun rest place _ =>
    motive rest place ((⟨rest, place⟩ : Reading).tokens vocabulary)) ?_ ?_ ?_ rest place
  · intro place
    rw [tokens_nil]
    exact nil place
  · intro c rest place _ hgap ih
    rw [tokens_gap hgap]
    exact gap c rest place _ hgap ih
  · intro kind lexeme after place _ hrule ih _
    cases hkind : kind.isDiscarded with
    | true =>
      rw [tokens_discarded hrule hkind]
      exact discarded _ _ _ _ _ hrule hkind ih
    | false =>
      by_cases hfinish : kind = .finish
      · subst hfinish
        rw [tokens_finish hrule]
        exact finish _ _ _ hrule
      · rw [tokens_kept hrule hkind hfinish]
        exact kept _ _ _ _ _ hrule hkind hfinish ih rfl

/-- **What a text is read as can be written out.**  By induction on the reading; the last token has
an empty lexeme unless it is a word that ends the text. -/
theorem exists_writing (vocabulary : Vocabulary) (reading : Reading) :
    ∃ entries text lexeme, Writing vocabulary entries text ∧
      (lexeme = [] ∨ vocabulary.kindOf (String.ofList lexeme) = .finish) ∧
      (reading.tokens vocabulary).map Token.entry = entries ++ [(.finish, lexeme)] := by
  refine tokens_induction (motive := fun _ _ list =>
    ∃ entries text lexeme, Writing vocabulary entries text ∧
      (lexeme = [] ∨ vocabulary.kindOf (String.ofList lexeme) = .finish) ∧
      list.map Token.entry = entries ++ [(.finish, lexeme)])
    ?_ ?_ ?_ ?_ ?_ reading.rest reading.place
  · exact fun place => ⟨[], [], [], .nil, .inl rfl, by simp⟩
  · exact fun _ _ _ _ _ ih => ih
  · exact fun _ _ _ _ _ _ _ ih => ih
  · exact fun lexeme _ _ hrule => ⟨[], [], lexeme, .nil, .inr hrule.of_finish, by simp⟩
  · rintro kind lexeme after place list hrule hkept hfinish ⟨entries, text, last, hwriting, hlast,
      hentries⟩ hlist
    rcases hrule.spelling hkept hfinish with hspelling | ⟨body, hbody, rfl, rfl, hwhole⟩
    · exact ⟨_, _, last,
        .cons hspelling separator_space (by simp [Cut.isGap]) (by simp) hwriting, hlast,
        by rw [List.map_cons, Token.entry_ofList, hentries, List.cons_append]⟩
    · obtain rfl : after = [] := List.append_cancel_left (hwhole.trans (List.append_nil _).symm)
      refine ⟨_, _, [], .openText hbody, .inl rfl, ?_⟩
      rw [hlist, List.map_cons, Token.entry_ofList, tokens_nil]
      simp

end Reading

/-! ## Single spaces -/

/-- The lexemes of entries with single spaces between them. -/
def singleSpaced (entries : List (Kind × List Char)) : List Char :=
  [' '].intercalate (entries.map Prod.snd)

/-- **Whatever can be written can be written with single spaces.** -/
theorem Writing.singleSpaced {entries : List (Kind × List Char)} {text : List Char}
    (h : Writing vocabulary entries text) : Writing vocabulary entries (singleSpaced entries) := by
  induction h with
  | nil => exact .nil
  | openText hbody => simpa [ScriptFrontend.singleSpaced] using .openText hbody
  | @cons kind lexeme gap text entries hspelling _ _ _ _ ih =>
    rcases entries with _ | ⟨entry, entries⟩
    · have hlast := Writing.cons hspelling .nil (by simp) (by simp) .nil
      simpa [ScriptFrontend.singleSpaced] using hlast
    · have hmore := Writing.cons hspelling separator_space (by simp [Cut.isGap]) (by simp) ih
      simpa [ScriptFrontend.singleSpaced] using hmore

end ScriptFrontend
