import Mathlib
import ScriptFrontend.Proofs.Lexeme.Calls

/-!
# Proofs/Lexeme/Rule — the lexical rules, and that every token follows one

A `Rule vocabulary text kind lexeme` says what stands at the front of a text: one constructor for
each form of token, with the condition that makes its lexeme as long as it can be.  The rules do not
mention how a text is scanned; only the tables of characters and pairs are shared.

A cut follows a rule (`rule_cut`) and no rule allows another cut (`cut_of_rule`).  So at the start
of every token one kind and one lexeme are possible, and they are the token's.
-/

namespace ScriptFrontend

/-! ## Characters -/

/-- The letters of ASCII. -/
def Letter (c : Char) : Prop := 'a' ≤ c ∧ c ≤ 'z' ∨ 'A' ≤ c ∧ c ≤ 'Z'

/-- The digits of ASCII. -/
def Digit (c : Char) : Prop := '0' ≤ c ∧ c ≤ '9'

theorem isAlpha_iff {c : Char} : c.isAlpha = true ↔ Letter c := by
  simp [Char.isAlpha, Char.isUpper, Char.isLower, Letter, Char.le_def, or_comm]

theorem isDigit_iff {c : Char} : c.isDigit = true ↔ Digit c := by
  simp [Char.isDigit, Digit, Char.le_def]

theorem isAlphanum_iff {c : Char} : c.isAlphanum = true ↔ Letter c ∨ Digit c := by
  rw [Char.isAlphanum, Bool.or_eq_true, isAlpha_iff, isDigit_iff]

/-- The characters that a table gives a meaning. -/
def Tabled (c : Char) : Prop :=
  c ∈ soloTable.map Prod.fst ∨ c ∈ operatorTable.map Prod.fst

/-- The characters that start a comment, a product or a quoted text. -/
def Opening (c : Char) : Prop := c = '#' ∨ c = '*' ∨ c = '"'

/-- Letters, digits, opening characters and those outside ASCII are in no table. -/
theorem not_tabled {c : Char} (h : c.isAlphanum = true ∨ Opening c ∨ 128 ≤ c.toNat) :
    ¬ Tabled c := by
  have hall : ∀ other ∈ soloTable.map Prod.fst ++ operatorTable.map Prod.fst,
      other.isAlphanum = false ∧ (other ≠ '#' ∧ other ≠ '*' ∧ other ≠ '"') ∧
        other.toNat < 128 := by simp [soloTable, operatorTable]
  intro htabled
  obtain ⟨hplain, ⟨hhash, hstar, hquote⟩, hascii⟩ := hall c (List.mem_append.2 htabled)
  rcases h with h | (h | h | h) | h
  · simp [hplain] at h
  · exact hhash h
  · exact hstar h
  · exact hquote h
  · omega

/-- The characters that are in no gap and that no rule but the last one is about. -/
structure Other (c : Char) : Prop where
  tabled : ¬ Tabled c
  opening : ¬ Opening c
  letter : ¬ Letter c
  digit : ¬ Digit c
  gap : c ∉ [' ', '\t', '\r', '\n']

/-- Every character outside ASCII is one of them, be it a letter, a digit or a blank elsewhere. -/
theorem other_of_not_ascii {c : Char} (h : 128 ≤ c.toNat) : Other c where
  tabled := not_tabled (.inr (.inr h))
  opening := by
    rintro (rfl | rfl | rfl)
    · exact absurd h (by decide)
    · exact absurd h (by decide)
    · exact absurd h (by decide)
  letter hletter := by
    simp only [Letter, Char.le_def, UInt32.le_iff_toNat_le] at hletter
    have hupper : 'Z'.val.toNat = 90 := rfl
    have hlower : 'z'.val.toNat = 122 := rfl
    have hc : c.toNat = c.val.toNat := rfl
    omega
  digit hdigit := by
    simp only [Digit, Char.le_def, UInt32.le_iff_toNat_le] at hdigit
    have hnine : '9'.val.toNat = 57 := rfl
    have hc : c.toNat = c.val.toNat := rfl
    omega
  gap hmem := by
    have hall : ∀ other ∈ [' ', '\t', '\r', '\n'], other.toNat < 128 := by simp
    have := hall c hmem
    omega

/-! ## Rules -/

/-- **The lexical rules**: the kind and the lexeme of the token at the front of a text. -/
inductive Rule (vocabulary : Vocabulary) : List Char → Kind → List Char → Prop where
  /-- A letter and all letters and digits behind it. -/
  | word {first : Char} {body after : List Char} :
    Letter first → (∀ c ∈ body, Letter c ∨ Digit c) →
    (∀ c ∈ after.head?, ¬ (Letter c ∨ Digit c)) →
    Rule vocabulary (first :: (body ++ after))
      (vocabulary.kindOf (String.ofList (first :: body))) (first :: body)
  /-- A digit and all digits behind it. -/
  | number {first : Char} {body after : List Char} :
    Digit first → (∀ c ∈ body, Digit c) → (∀ c ∈ after.head?, ¬ Digit c) →
    Rule vocabulary (first :: (body ++ after)) .number (first :: body)
  /-- A double quote and everything through the next one. -/
  | text {body after : List Char} :
    '"' ∉ body → Rule vocabulary ('"' :: (body ++ '"' :: after)) .text ('"' :: (body ++ ['"']))
  /-- A double quote without a next one, and all the rest. -/
  | openText {body : List Char} :
    '"' ∉ body → Rule vocabulary ('"' :: body) .unknown ('"' :: body)
  /-- A number sign and everything in front of the next newline. -/
  | lineComment {body after : List Char} :
    '\n' ∉ body → (∀ c ∈ after.head?, c = '\n') →
    Rule vocabulary ('#' :: (body ++ after)) .comment ('#' :: body)
  /-- Two stars and everything through the next two of which none is among the first ones. -/
  | blockComment {body after : List Char} :
    (∀ front back, body ++ ['*', '*'] = front ++ '*' :: '*' :: back → back = []) →
    Rule vocabulary ('*' :: '*' :: (body ++ '*' :: '*' :: after)) .blockComment
      ('*' :: '*' :: (body ++ ['*', '*']))
  /-- Two stars without two more, and all the rest. -/
  | openComment {body : List Char} :
    (∀ front back, body ≠ front ++ '*' :: '*' :: back) →
    Rule vocabulary ('*' :: '*' :: body) .blockComment ('*' :: '*' :: body)
  /-- One star alone. -/
  | times {after : List Char} :
    (∀ c ∈ after.head?, c ≠ '*') → Rule vocabulary ('*' :: after) (.operator .times) ['*']
  /-- A pair of characters that is one operator. -/
  | pair {first second : Char} {kind : Kind} {after : List Char} :
    ((first, second), kind) ∈ pairTable →
    Rule vocabulary (first :: second :: after) kind [first, second]
  /-- An operator of one character that no pair goes on with. -/
  | single {first : Char} {kind : Kind} {after : List Char} :
    (first, some kind) ∈ operatorTable →
    (∀ c ∈ after.head?, ∀ other, ((first, c), other) ∉ pairTable) →
    Rule vocabulary (first :: after) kind [first]
  /-- The first character of pairs that has no kind alone. -/
  | lone {first : Char} {after : List Char} :
    (first, none) ∈ operatorTable →
    (∀ c ∈ after.head?, ∀ other, ((first, c), other) ∉ pairTable) →
    Rule vocabulary (first :: after) .unknown [first]
  /-- A character that is always a token of its own. -/
  | solo {first : Char} {kind : Kind} {after : List Char} :
    (first, kind) ∈ soloTable → Rule vocabulary (first :: after) kind [first]
  /-- Any other character but those of gaps. -/
  | unknown {first : Char} {after : List Char} :
    Other first → Rule vocabulary (first :: after) .unknown [first]

namespace Cut

variable {vocabulary : Vocabulary} {first : Char} {rest : List Char}

/-! ## Tables -/

/-- No table has a key twice. -/
theorem lookup_table :
    (∀ entry ∈ soloTable, soloTable.lookup entry.1 = some entry.2) ∧
    (∀ entry ∈ operatorTable,
      soloTable.lookup entry.1 = none ∧ operatorTable.lookup entry.1 = some entry.2) ∧
    ∀ entry ∈ pairTable, pairTable.lookup entry.1 = some entry.2 := by
  decide

theorem lookup_eq_none {α β : Type} [BEq α] [LawfulBEq α] {table : List (α × β)} {key : α}
    (h : key ∉ table.map Prod.fst) : table.lookup key = none := by
  refine List.lookup_eq_none_iff.2 fun entry hmem => ?_
  have hne : key ≠ entry.1 := fun heq => h (heq ▸ List.mem_map_of_mem hmem)
  simpa using hne

theorem mem_of_lookup {α β : Type} [BEq α] [LawfulBEq α] {table : List (α × β)} {key : α}
    {value : β} (h : table.lookup key = some value) : (key, value) ∈ table := by
  obtain ⟨front, back, rfl, -⟩ := List.lookup_eq_some_iff.1 h
  simp

/-- A character of the operator table starts an operator alone where no pair goes on with it. -/
theorem operator?_single (h : ∀ c ∈ rest.head?, ∀ kind, ((first, c), kind) ∉ pairTable) :
    operator? first rest = single? first rest := by
  rcases rest with _ | ⟨second, rest⟩
  · rfl
  · have hnone : pairTable.lookup (first, second) = none := by
      refine lookup_eq_none fun hmem => ?_
      obtain ⟨⟨key, kind⟩, hmem, rfl⟩ := List.mem_map.1 hmem
      exact h second rfl kind hmem
    rw [operator?, hnone]

theorem single?_of_mem {kind : Option Kind} (h : (first, kind) ∈ operatorTable) :
    single? first rest = some ⟨kind.getD .unknown, [first], rest⟩ := by
  rw [single?, (lookup_table.2.1 _ h).2]
  rfl

theorem operator?_pair {second : Char} {kind : Kind} (h : ((first, second), kind) ∈ pairTable) :
    operator? first (second :: rest) = some ⟨kind, [first, second], rest⟩ := by
  rw [operator?, lookup_table.2.2 _ h]

/-- A character of no table starts no operator. -/
theorem operator?_not_tabled (h : ¬ Tabled first) : operator? first rest = none := by
  have hnone : operatorTable.lookup first = none := lookup_eq_none fun hmem => h (.inr hmem)
  rw [operator?_single, single?, hnone]
  · rfl
  · intro c _ kind hmem
    have hsome := operatorTable_of_pairTable _ hmem
    simp [hnone] at hsome

theorem cut_solo {kind : Kind} (h : (first, kind) ∈ soloTable) :
    cut vocabulary first rest = ⟨kind, [first], rest⟩ := by
  rw [cut, lookup_table.1 _ h]

theorem cut_operator {kind : Option Kind} {result : Cut} (h : (first, kind) ∈ operatorTable)
    (hresult : operator? first rest = some result) : cut vocabulary first rest = result := by
  rw [cut, (lookup_table.2.1 _ h).1, hresult]

/-- Outside the tables, the first character chooses among the other forms. -/
theorem cut_not_tabled (h : ¬ Tabled first) :
    cut vocabulary first rest =
      if first = '#' then lineComment (first :: rest)
      else if first = '*' then star rest
      else if first = '"' then quotedText first rest
      else if first.isDigit then number (first :: rest)
      else if first.isAlpha then word vocabulary (first :: rest)
      else ⟨.unknown, [first], rest⟩ := by
  rw [cut, lookup_eq_none fun hmem => h (.inl hmem), operator?_not_tabled h]

/-! ## Forms of token -/

/-- A run is taken in full. -/
theorem whileTrue_run {kind : Kind} {test : Char → Bool} {run after : List Char}
    (hrun : ∀ c ∈ run, test c = true) (hafter : ∀ c ∈ after.head?, test c = false) :
    whileTrue kind test (run ++ after) = ⟨kind, run, after⟩ := by
  obtain ⟨htake, hdrop⟩ := Stream.takeWhile_run hrun hafter
  rw [whileTrue, htake, hdrop]

theorem bne_of_not_mem {c : Char} {body : List Char} (h : c ∉ body) :
    ∀ other ∈ body, (other != c) = true := fun other hmem => by
  have hne : other ≠ c := fun heq => h (heq ▸ hmem)
  simpa using hne

theorem quotedText_closed {body after : List Char} (h : '"' ∉ body) :
    quotedText '"' (body ++ '"' :: after) = ⟨.text, '"' :: (body ++ ['"']), after⟩ := by
  have hrun := bne_of_not_mem h
  have hstop : ∀ c ∈ ('"' :: after).head?, (c != '"') = false := fun c hc => by
    simp [← Option.mem_some.1 hc]
  obtain ⟨htake, hdrop⟩ := Stream.takeWhile_run hrun hstop
  rw [quotedText, htake, hdrop]

theorem quotedText_open {body : List Char} (h : '"' ∉ body) :
    quotedText '"' body = ⟨.unknown, '"' :: body, []⟩ := by
  have hrun := bne_of_not_mem h
  have hstop : ∀ c ∈ ([] : List Char).head?, (c != '"') = false := by simp
  have hdrop := (Stream.takeWhile_run hrun hstop).2
  rw [List.append_nil] at hdrop
  rw [quotedText, hdrop]

/-- A text up to and with its first pair of stars. -/
theorem throughStars_closed {body after : List Char}
    (h : ∀ front back, body ++ ['*', '*'] = front ++ '*' :: '*' :: back → back = []) :
    throughStars (body ++ '*' :: '*' :: after) = (body ++ ['*', '*'], after) := by
  induction body with
  | nil => rfl
  | cons c body ih =>
    have hsplit : ∀ rest, c = '*' → body ++ '*' :: '*' :: after = '*' :: rest → False := by
      rintro rest rfl heq
      obtain ⟨back, hback⟩ : ∃ back, body ++ ['*', '*'] = '*' :: back := by
        rcases body with _ | ⟨next, body⟩
        · exact ⟨['*'], rfl⟩
        · obtain rfl : next = '*' := (List.cons.inj heq).1
          exact ⟨_, rfl⟩
      have hnil := h [] back (by rw [List.cons_append, hback]; rfl)
      have hlength := congrArg List.length hback
      simp [hnil] at hlength
    rw [List.cons_append, throughStars.eq_3 _ _ hsplit,
      ih fun front back heq => h (c :: front) back (by simp [heq])]
    rfl

/-- A text without a pair of stars. -/
theorem throughStars_open {body : List Char}
    (h : ∀ front back, body ≠ front ++ '*' :: '*' :: back) : throughStars body = (body, []) := by
  induction body with
  | nil => rfl
  | cons c body ih =>
    have hsplit : ∀ rest, c = '*' → body = '*' :: rest → False := by
      rintro rest rfl rfl
      exact h [] rest rfl
    rw [throughStars.eq_3 _ _ hsplit, ih fun front back heq => h (c :: front) back (by simp [heq])]

/-- A text has a first pair of stars or none at all. -/
theorem stars_cases (text : List Char) :
    (∃ body after, text = body ++ '*' :: '*' :: after ∧
      ∀ front back, body ++ ['*', '*'] = front ++ '*' :: '*' :: back → back = []) ∨
    ∀ front back, text ≠ front ++ '*' :: '*' :: back := by
  fun_induction throughStars text with
  | case1 => exact .inr (by simp)
  | case2 rest =>
    refine .inl ⟨[], rest, rfl, fun front back heq => ?_⟩
    have hlength := congrArg List.length heq
    simp only [List.length_append, List.length_cons, List.length_nil] at hlength
    exact List.length_eq_zero_iff.1 (by omega)
  | case3 c rest hsplit ih =>
    rcases ih with ⟨body, after, rfl, hbody⟩ | hnone
    · refine .inl ⟨c :: body, after, rfl, fun front back heq => ?_⟩
      rcases front with _ | ⟨other, front⟩
      · obtain ⟨rfl, hback⟩ := List.cons.inj heq
        rcases body with _ | ⟨next, body⟩
        · exact (hsplit _ rfl rfl).elim
        · obtain rfl : next = '*' := (List.cons.inj hback).1
          exact (hsplit _ rfl rfl).elim
      · exact hbody front back (List.cons.inj heq).2
    · refine .inr fun front back heq => ?_
      rcases front with _ | ⟨other, front⟩
      · obtain ⟨rfl, hback⟩ := List.cons.inj heq
        exact hsplit back rfl hback
      · exact hnone front back (List.cons.inj heq).2

/-! ## The choice among them -/

theorem not_opening {c : Char} (h : c.isAlphanum = true) : ¬ Opening c := by
  rintro (rfl | rfl | rfl)
  · exact absurd h (by decide)
  · exact absurd h (by decide)
  · exact absurd h (by decide)

theorem not_digit_of_letter {c : Char} (h : Letter c) : ¬ Digit c := by
  simp only [Letter, Digit, Char.le_def, UInt32.le_iff_toNat_le] at h ⊢
  have hnine : '9'.val.toNat = 57 := rfl
  have hupper : 'A'.val.toNat = 65 := rfl
  have hlower : 'a'.val.toNat = 97 := rfl
  omega

/-- What opens nothing and is in no table is the start of a number or a word, or unknown. -/
theorem cut_plain (htabled : ¬ Tabled first) (hopening : ¬ Opening first) :
    cut vocabulary first rest =
      if first.isDigit then number (first :: rest)
      else if first.isAlpha then word vocabulary (first :: rest)
      else ⟨.unknown, [first], rest⟩ := by
  obtain ⟨hhash, hstar, hquote⟩ : first ≠ '#' ∧ first ≠ '*' ∧ first ≠ '"' := by
    simpa [Opening] using hopening
  rw [cut_not_tabled htabled, if_neg hhash, if_neg hstar, if_neg hquote]

theorem cut_letter (h : Letter first) :
    cut vocabulary first rest = word vocabulary (first :: rest) := by
  have halnum := isAlphanum_iff.2 (.inl h)
  rw [cut_plain (not_tabled (.inl halnum)) (not_opening halnum),
    if_neg fun hdigit => not_digit_of_letter h (isDigit_iff.1 hdigit), if_pos (isAlpha_iff.2 h)]

theorem cut_digit (h : Digit first) : cut vocabulary first rest = number (first :: rest) := by
  have halnum := isAlphanum_iff.2 (.inr h)
  rw [cut_plain (not_tabled (.inl halnum)) (not_opening halnum), if_pos (isDigit_iff.2 h)]

theorem cut_hash : cut vocabulary '#' rest = lineComment ('#' :: rest) := by
  rw [cut_not_tabled (not_tabled (.inr (.inl (.inl rfl)))), if_pos rfl]

theorem cut_star : cut vocabulary '*' rest = star rest := by
  rw [cut_not_tabled (not_tabled (.inr (.inl (.inr (.inl rfl))))), if_neg (by decide), if_pos rfl]

theorem cut_quote : cut vocabulary '"' rest = quotedText '"' rest := by
  rw [cut_not_tabled (not_tabled (.inr (.inl (.inr (.inr rfl))))), if_neg (by decide),
    if_neg (by decide), if_pos rfl]

theorem cut_other (h : Other first) :
    cut vocabulary first rest = ⟨.unknown, [first], rest⟩ := by
  rw [cut_plain h.tabled h.opening, if_neg fun hdigit => h.digit (isDigit_iff.1 hdigit),
    if_neg fun hletter => h.letter (isAlpha_iff.1 hletter)]

/-! ## Cuts and rules -/

/-- **A rule allows one cut only.** -/
theorem cut_of_rule {kind : Kind} {lexeme : List Char}
    (h : Rule vocabulary (first :: rest) kind lexeme) :
    (cut vocabulary first rest).kind = kind ∧ (cut vocabulary first rest).taken = lexeme := by
  generalize htext : first :: rest = text at h
  cases h with
  | @word _ body after hletter hbody hafter =>
    obtain ⟨rfl, rfl⟩ := List.cons.inj htext
    have hrun : ∀ c ∈ first :: body, c.isAlphanum = true :=
      List.forall_mem_cons.2 ⟨isAlphanum_iff.2 (.inl hletter),
        fun c hc => isAlphanum_iff.2 (hbody c hc)⟩
    have hstop : ∀ c ∈ after.head?, c.isAlphanum = false := fun c hc => by
      simpa using fun h => hafter c hc (isAlphanum_iff.1 h)
    rw [cut_letter hletter, Cut.word, ← List.cons_append, whileTrue_run hrun hstop,
      (Stream.takeWhile_run hrun hstop).1]
    exact ⟨rfl, rfl⟩
  | @number _ body after hdigit hbody hafter =>
    obtain ⟨rfl, rfl⟩ := List.cons.inj htext
    have hrun : ∀ c ∈ first :: body, c.isDigit = true :=
      List.forall_mem_cons.2 ⟨isDigit_iff.2 hdigit, fun c hc => isDigit_iff.2 (hbody c hc)⟩
    have hstop : ∀ c ∈ after.head?, c.isDigit = false := fun c hc => by
      simpa using fun h => hafter c hc (isDigit_iff.1 h)
    rw [cut_digit hdigit, Cut.number, ← List.cons_append, whileTrue_run hrun hstop]
    exact ⟨rfl, rfl⟩
  | text hbody =>
    obtain ⟨rfl, rfl⟩ := List.cons.inj htext
    rw [cut_quote, quotedText_closed hbody]
    exact ⟨rfl, rfl⟩
  | openText hbody =>
    obtain ⟨rfl, rfl⟩ := List.cons.inj htext
    rw [cut_quote, quotedText_open hbody]
    exact ⟨rfl, rfl⟩
  | @lineComment body after hbody hafter =>
    obtain ⟨rfl, rfl⟩ := List.cons.inj htext
    have hrun : ∀ c ∈ '#' :: body, (c != '\n') = true :=
      List.forall_mem_cons.2 ⟨by decide, bne_of_not_mem hbody⟩
    rw [cut_hash, Cut.lineComment, ← List.cons_append,
      whileTrue_run hrun fun c hc => by simp [hafter c hc]]
    exact ⟨rfl, rfl⟩
  | blockComment hbody =>
    obtain ⟨rfl, rfl⟩ := List.cons.inj htext
    rw [cut_star, star, Cut.blockComment, throughStars_closed hbody]
    exact ⟨rfl, rfl⟩
  | openComment hbody =>
    obtain ⟨rfl, rfl⟩ := List.cons.inj htext
    rw [cut_star, star, Cut.blockComment, throughStars_open hbody]
    exact ⟨rfl, rfl⟩
  | times hafter =>
    obtain ⟨rfl, rfl⟩ := List.cons.inj htext
    have hsplit : ∀ others, rest = '*' :: others → False := by
      rintro others rfl
      exact hafter '*' rfl rfl
    rw [cut_star, star.eq_2 _ hsplit]
    exact ⟨rfl, rfl⟩
  | @pair _ second kind after hpair =>
    obtain ⟨rfl, rfl⟩ := List.cons.inj htext
    obtain ⟨alone, hlookup⟩ := Option.isSome_iff_exists.1 (operatorTable_of_pairTable _ hpair)
    rw [cut_operator (mem_of_lookup hlookup) (operator?_pair hpair)]
    exact ⟨rfl, rfl⟩
  | single hmem hafter =>
    obtain ⟨rfl, rfl⟩ := List.cons.inj htext
    rw [cut_operator hmem ((operator?_single hafter).trans (single?_of_mem hmem))]
    exact ⟨rfl, rfl⟩
  | lone hmem hafter =>
    obtain ⟨rfl, rfl⟩ := List.cons.inj htext
    rw [cut_operator hmem ((operator?_single hafter).trans (single?_of_mem hmem))]
    exact ⟨rfl, rfl⟩
  | solo hmem =>
    obtain ⟨rfl, rfl⟩ := List.cons.inj htext
    rw [cut_solo hmem]
    exact ⟨rfl, rfl⟩
  | unknown hother =>
    obtain ⟨rfl, rfl⟩ := List.cons.inj htext
    rw [cut_other hother]
    exact ⟨rfl, rfl⟩

/-- The kinds of single operators and of the lone character that is none. -/
theorem rule_single {kind : Option Kind} (hmem : (first, kind) ∈ operatorTable)
    (hafter : ∀ c ∈ rest.head?, ∀ other, ((first, c), other) ∉ pairTable) :
    Rule vocabulary (first :: rest) (kind.getD .unknown) [first] := by
  rcases kind with _ | kind
  · exact .lone hmem hafter
  · exact .single hmem hafter

theorem rule_star : Rule vocabulary ('*' :: rest) (star rest).kind (star rest).taken := by
  by_cases hstar : ∃ behind, rest = '*' :: behind
  · obtain ⟨behind, rfl⟩ := hstar
    rw [star, Cut.blockComment]
    rcases stars_cases behind with ⟨body, after, rfl, hbody⟩ | hnone
    · rw [throughStars_closed hbody]
      exact .blockComment hbody
    · rw [throughStars_open hnone]
      exact .openComment hnone
  · rw [star.eq_2 _ fun behind heq => hstar ⟨behind, heq⟩]
    refine .times ?_
    rintro c hc rfl
    exact hstar (List.head?_eq_some_iff.1 hc)

theorem rule_quote :
    Rule vocabulary ('"' :: rest) (quotedText '"' rest).kind (quotedText '"' rest).taken := by
  obtain ⟨body, after, rfl, hbody, hafter⟩ := Stream.exists_run (· != '"') rest
  have hnot : '"' ∉ body := fun hmem => absurd (hbody _ hmem) (by decide)
  rcases after with _ | ⟨c, after⟩
  · rw [List.append_nil, quotedText_open hnot]
    exact .openText hnot
  · obtain rfl : c = '"' := by simpa using hafter c rfl
    rw [quotedText_closed hnot]
    exact .text hnot

theorem rule_hash :
    Rule vocabulary ('#' :: rest) .comment (lineComment ('#' :: rest)).taken := by
  obtain ⟨body, after, rfl, hbody, hafter⟩ := Stream.exists_run (· != '\n') rest
  have hrun : ∀ c ∈ '#' :: body, (c != '\n') = true := List.forall_mem_cons.2 ⟨by decide, hbody⟩
  rw [Cut.lineComment, ← List.cons_append, whileTrue_run hrun hafter]
  exact .lineComment (fun hmem => absurd (hbody _ hmem) (by decide)) fun c hc => by
    simpa using hafter c hc

theorem rule_digit (h : Digit first) :
    Rule vocabulary (first :: rest) .number (number (first :: rest)).taken := by
  obtain ⟨body, after, rfl, hbody, hafter⟩ := Stream.exists_run Char.isDigit rest
  have hrun : ∀ c ∈ first :: body, c.isDigit = true :=
    List.forall_mem_cons.2 ⟨isDigit_iff.2 h, hbody⟩
  rw [Cut.number, ← List.cons_append, whileTrue_run hrun hafter]
  exact .number h (fun c hc => isDigit_iff.1 (hbody c hc)) fun c hc hdigit =>
    absurd (isDigit_iff.2 hdigit) (by simp [hafter c hc])

theorem rule_letter (h : Letter first) :
    Rule vocabulary (first :: rest) (word vocabulary (first :: rest)).kind
      (word vocabulary (first :: rest)).taken := by
  obtain ⟨body, after, rfl, hbody, hafter⟩ := Stream.exists_run Char.isAlphanum rest
  have hrun : ∀ c ∈ first :: body, c.isAlphanum = true :=
    List.forall_mem_cons.2 ⟨isAlphanum_iff.2 (.inl h), hbody⟩
  rw [Cut.word, ← List.cons_append, whileTrue_run hrun hafter, (Stream.takeWhile_run hrun hafter).1]
  exact .word h (fun c hc => isAlphanum_iff.1 (hbody c hc)) fun c hc halnum =>
    absurd (isAlphanum_iff.2 halnum) (by simp [hafter c hc])

/-- **A cut follows a rule.** -/
theorem rule_cut (hfirst : isGap first = false) :
    Rule vocabulary (first :: rest) (cut vocabulary first rest).kind
      (cut vocabulary first rest).taken := by
  by_cases htabled : Tabled first
  · rcases htabled with hsolo | hoperator
    · obtain ⟨⟨key, kind⟩, hmem, rfl⟩ := List.mem_map.1 hsolo
      rw [cut_solo hmem]
      exact .solo hmem
    · obtain ⟨⟨key, kind⟩, hmem, rfl⟩ := List.mem_map.1 hoperator
      by_cases hpair : ∃ c ∈ rest.head?, ∃ other, ((key, c), other) ∈ pairTable
      · obtain ⟨second, hsecond, other, hpair⟩ := hpair
        obtain ⟨after, rfl⟩ := List.head?_eq_some_iff.1 hsecond
        rw [cut_operator hmem (operator?_pair hpair)]
        exact .pair hpair
      · have hafter : ∀ c ∈ rest.head?, ∀ other, ((key, c), other) ∉ pairTable :=
          fun c hc other hother => hpair ⟨c, hc, other, hother⟩
        rw [cut_operator hmem ((operator?_single hafter).trans (single?_of_mem hmem))]
        exact rule_single hmem hafter
  by_cases hopening : Opening first
  · rcases hopening with rfl | rfl | rfl
    · rw [cut_hash]
      exact rule_hash
    · rw [cut_star]
      exact rule_star
    · rw [cut_quote]
      exact rule_quote
  by_cases hdigit : Digit first
  · rw [cut_digit hdigit]
    exact rule_digit hdigit
  by_cases hletter : Letter first
  · rw [cut_letter hletter]
    exact rule_letter hletter
  · have hother : Other first :=
      ⟨htabled, hopening, hletter, hdigit, by simpa [isGap, and_assoc] using hfirst⟩
    rw [cut_other hother]
    exact .unknown hother

/-- **Rules and cuts agree.** -/
theorem rule_iff (hfirst : isGap first = false) {kind : Kind} {lexeme : List Char} :
    Rule vocabulary (first :: rest) kind lexeme ↔
      kind = (cut vocabulary first rest).kind ∧ lexeme = (cut vocabulary first rest).taken := by
  constructor
  · intro h
    obtain ⟨hkind, hlexeme⟩ := cut_of_rule h
    exact ⟨hkind.symm, hlexeme.symm⟩
  · rintro ⟨rfl, rfl⟩
    exact rule_cut hfirst

end Cut

/-! ## Every token -/

/-- Where a call starts, the text goes on with its cut. -/
theorem cut_of_calls {vocabulary : Vocabulary} {front back : List Char}
    {calls : List (Token × Stream)} {final : Token × Stream}
    (h : Stream.Calls vocabulary (.between front back) calls final) :
    (∀ call ∈ calls, ∃ first rest, (front ++ back).drop (Stream.startOf call) = first :: rest ∧
      Cut.isGap first = false ∧ call.1.kind = (Cut.cut vocabulary first rest).kind ∧
      call.1.lexeme.toList = (Cut.cut vocabulary first rest).taken) ∧
    final.1.kind = .finish := by
  refine Stream.calls_induction (motive := fun front back calls final =>
    (∀ call ∈ calls, ∃ first rest, (front ++ back).drop (Stream.startOf call) = first :: rest ∧
      Cut.isGap first = false ∧ call.1.kind = (Cut.cut vocabulary first rest).kind ∧
      call.1.lexeme.toList = (Cut.cut vocabulary first rest).taken) ∧
    final.1.kind = .finish) ?_ ?_ h
  · intro front gap _
    exact ⟨by simp, rfl⟩
  · rintro front gap first rest calls final hgap hfirst ⟨hcalls, hfinal⟩
    rw [List.append_assoc _ _ (Cut.cut vocabulary first rest).left, Cut.taken_append_left,
      List.append_assoc] at hcalls
    refine ⟨List.forall_mem_cons.2 ⟨⟨first, rest, ?_, hfirst, rfl, ?_⟩, hcalls⟩, hfinal⟩
    · rw [Stream.startOf_cutCall, ← List.append_assoc, List.drop_left]
    · rw [Stream.cutCall, String.toList_ofList]

/-- **A single character is unknown** exactly if it is one of those that no other rule is about, or
it could have started a pair or a quoted text and does not, or the vocabulary says so. -/
theorem rule_unknown_iff {vocabulary : Vocabulary} {c : Char} {after : List Char} :
    Rule vocabulary (c :: after) .unknown [c] ↔
      Other c ∨ c = '~' ∧ (∀ d ∈ after.head?, d ≠ '>') ∨ c = '"' ∧ after = [] ∨
        Letter c ∧ (∀ d ∈ after.head?, ¬ (Letter d ∨ Digit d)) ∧
          vocabulary.kindOf (String.ofList [c]) = .unknown := by
  have hkinds : (∀ entry ∈ soloTable, entry.2 ≠ .unknown) ∧
      ∀ entry ∈ operatorTable, entry.2 ≠ some .unknown ∧ (entry.2 = none → entry.1 = '~') := by
    decide
  have hpairs : (('~', '>'), .operator .raise) ∈ pairTable ∧
      ∀ entry ∈ pairTable, entry.1.1 = '~' → entry.1.2 = '>' := by decide
  constructor
  · intro h
    generalize htext : c :: after = text at h
    generalize hlexeme : [c] = lexeme at h
    generalize hkind : Kind.unknown = kind at h
    cases h with
    | word hletter _ hafter =>
      obtain ⟨rfl, rfl⟩ := List.cons.inj hlexeme
      obtain ⟨-, rfl⟩ := List.cons.inj htext
      exact .inr (.inr (.inr ⟨hletter, hafter, rfl⟩))
    | number | text | lineComment | blockComment | openComment | times => cases hkind
    | openText =>
      obtain ⟨rfl, rfl⟩ := List.cons.inj hlexeme
      exact .inr (.inr (.inl ⟨rfl, (List.cons.inj htext).2⟩))
    | pair => simp at hlexeme
    | single hmem _ =>
      subst hkind
      exact absurd rfl (hkinds.2 _ hmem).1
    | lone hmem hafter =>
      obtain ⟨rfl, rfl⟩ := List.cons.inj htext
      obtain rfl := (hkinds.2 _ hmem).2 rfl
      refine .inr (.inl ⟨rfl, ?_⟩)
      rintro d hd rfl
      exact hafter '>' hd _ hpairs.1
    | solo hmem =>
      subst hkind
      exact absurd rfl (hkinds.1 _ hmem)
    | unknown hother =>
      obtain ⟨rfl, -⟩ := List.cons.inj htext
      exact .inl hother
  · rintro (hother | ⟨rfl, hafter⟩ | ⟨rfl, rfl⟩ | ⟨hletter, hafter, hkind⟩)
    · exact .unknown hother
    · exact .lone (by decide) fun d hd kind hmem => hafter d hd (hpairs.2 _ hmem rfl)
    · exact .openText (by simp)
    · have hword : Rule vocabulary (c :: ([] ++ after)) _ _ := .word hletter (by simp) hafter
      rwa [hkind] at hword

/-- **Every token follows the lexical rules.**  At the start of each call but the final one, the
rules allow the kind and the lexeme of its token and nothing else. -/
theorem calls_follow_rules (vocabulary : Vocabulary) (text : String) :
    ∃ calls final,
      (∀ others other, Stream.Calls vocabulary (.ofText text) others other ↔
        others = calls ∧ other = final) ∧
      (∀ call ∈ calls, ∀ kind lexeme,
        Rule vocabulary (text.toList.drop (Stream.startOf call)) kind lexeme ↔
          kind = call.1.kind ∧ lexeme = call.1.lexeme.toList) ∧
      final.1.kind = .finish ∧
      (∀ c after, Rule vocabulary (c :: after) .unknown [c] ↔
        Other c ∨ c = '~' ∧ (∀ d ∈ after.head?, d ≠ '>') ∨ c = '"' ∧ after = [] ∨
          Letter c ∧ (∀ d ∈ after.head?, ¬ (Letter d ∨ Digit d)) ∧
            vocabulary.kindOf (String.ofList [c]) = .unknown) ∧
      (∀ c : Char, 128 ≤ c.toNat → Other c) ∧
      (soloTable.map Prod.fst).Nodup ∧ (soloTable.map Prod.snd).Nodup ∧
      (pairTable.map Prod.fst).Nodup ∧ pairTable.length = 10 := by
  obtain ⟨calls, final, hcalls⟩ := Stream.exists_calls vocabulary [] text.toList
  obtain ⟨hcuts, hfinal⟩ := cut_of_calls hcalls
  refine ⟨calls, final, fun others other => ⟨hcalls.unique, ?_⟩, fun call hmem kind lexeme => ?_,
    hfinal, fun _ _ => rule_unknown_iff, fun _ => other_of_not_ascii, by decide, by decide,
    by decide, rfl⟩
  · rintro ⟨rfl, rfl⟩
    exact hcalls
  · obtain ⟨first, rest, hdrop, hfirst, hkind, hlexeme⟩ := hcuts call hmem
    rw [List.nil_append] at hdrop
    rw [hdrop, hkind, hlexeme, Cut.rule_iff hfirst]

end ScriptFrontend
