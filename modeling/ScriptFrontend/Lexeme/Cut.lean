import ScriptFrontend.Lexeme.Table
import ScriptFrontend.Vocabulary

/-!
# Lexeme/Cut — where a token ends

A `Cut` splits a text into the characters of one token, of a kind, and the characters left.  There
is one function for each form of token — `lineComment`, `blockComment`, `quotedText`, `number`,
`word`, `operator` — and `cut`, which chooses among them by the first character of the text.  The
main facts are `taken_append_left`, that a cut loses nothing, and `taken_ne_nil`, that it takes
something.

A text is a sequence of Unicode scalar values: no half of a surrogate pair is a character.  Letters
and digits are those of ASCII; all other characters outside the tables are unknown.
-/

namespace ScriptFrontend

/-- One token's kind, its characters, and the characters behind it. -/
structure Cut where
  kind : Kind
  taken : List Char
  left : List Char
  deriving DecidableEq

namespace Cut

/-- The characters that separate tokens. -/
def isGap (c : Char) : Bool := c == ' ' || c == '\t' || c == '\r' || c == '\n'

/-! ## The forms of token -/

/-- The cut in front of the first character that a test refuses. -/
def whileTrue (kind : Kind) (test : Char → Bool) (text : List Char) : Cut :=
  ⟨kind, text.takeWhile test, text.dropWhile test⟩

/-- A comment ends in front of the next newline. -/
def lineComment (text : List Char) : Cut := whileTrue .comment (· != '\n') text

/-- A text up to and with its first pair of stars, or all of it. -/
def throughStars : List Char → List Char × List Char
  | [] => ([], [])
  | '*' :: '*' :: rest => (['*', '*'], rest)
  | c :: rest => (c :: (throughStars rest).1, (throughStars rest).2)

/-- A comment opened by two characters ends behind the next pair of stars. -/
def blockComment (first second : Char) (rest : List Char) : Cut :=
  ⟨.blockComment, first :: second :: (throughStars rest).1, (throughStars rest).2⟩

/-- A quoted text ends behind the next double quote; without one it is all the rest, and unknown. -/
def quotedText (first : Char) (rest : List Char) : Cut :=
  match rest.dropWhile (· != '"') with
  | [] => ⟨.unknown, first :: rest, []⟩
  | close :: left => ⟨.text, first :: (rest.takeWhile (· != '"') ++ [close]), left⟩

/-- A number ends behind its last digit. -/
def number (text : List Char) : Cut := whileTrue .number Char.isDigit text

/-- A word ends behind its last letter or digit and has the kind that the vocabulary gives it. -/
def word (vocabulary : Vocabulary) (text : List Char) : Cut :=
  whileTrue (vocabulary.kindOf (String.ofList (text.takeWhile Char.isAlphanum)))
    Char.isAlphanum text

/-- An operator of one character, unknown if that character has no kind alone. -/
def single? (first : Char) (rest : List Char) : Option Cut :=
  (operatorTable.lookup first).map fun kind => ⟨kind.getD .unknown, [first], rest⟩

/-- An operator is two characters long where a pair fits, and one character long elsewhere. -/
def operator? (first : Char) : List Char → Option Cut
  | [] => single? first []
  | second :: rest =>
    match pairTable.lookup (first, second) with
    | some kind => some ⟨kind, [first, second], rest⟩
    | none => single? first (second :: rest)

/-- A star is an operator, and two stars open a comment. -/
def star : List Char → Cut
  | '*' :: rest => blockComment '*' '*' rest
  | rest => ⟨.operator .times, ['*'], rest⟩

/-- **The cut of a text**, chosen by its first character. -/
def cut (vocabulary : Vocabulary) (first : Char) (rest : List Char) : Cut :=
  match soloTable.lookup first, operator? first rest with
  | some kind, _ => ⟨kind, [first], rest⟩
  | none, some operator => operator
  | none, none =>
    if first = '#' then lineComment (first :: rest)
    else if first = '*' then star rest
    else if first = '"' then quotedText first rest
    else if first.isDigit then number (first :: rest)
    else if first.isAlpha then word vocabulary (first :: rest)
    else ⟨.unknown, [first], rest⟩

/-! ## A cut loses nothing -/

@[simp] theorem whileTrue_append (kind : Kind) (test : Char → Bool) (text : List Char) :
    (whileTrue kind test text).taken ++ (whileTrue kind test text).left = text :=
  List.takeWhile_append_dropWhile

@[simp] theorem throughStars_append (text : List Char) :
    (throughStars text).1 ++ (throughStars text).2 = text := by
  fun_induction throughStars text with
  | case1 => rfl
  | case2 => rfl
  | case3 c rest _ ih => simp [ih]

theorem quotedText_append (first : Char) (rest : List Char) :
    (quotedText first rest).taken ++ (quotedText first rest).left = first :: rest := by
  have whole := List.takeWhile_append_dropWhile (p := (· != '"')) (l := rest)
  unfold quotedText
  split
  next => simp
  next close left h => rw [h] at whole; simp [whole]

theorem single?_append {first : Char} {rest : List Char} {result : Cut}
    (h : single? first rest = some result) :
    result.taken ++ result.left = first :: rest ∧ result.taken ≠ [] := by
  obtain ⟨kind, -, rfl⟩ := Option.map_eq_some_iff.1 h
  simp

theorem operator?_append {first : Char} {rest : List Char} {result : Cut}
    (h : operator? first rest = some result) :
    result.taken ++ result.left = first :: rest ∧ result.taken ≠ [] := by
  unfold operator? at h
  split at h
  next => exact single?_append h
  next second rest =>
    split at h
    next => obtain rfl := Option.some.inj h; simp
    next => exact single?_append h

theorem star_append (rest : List Char) :
    (star rest).taken ++ (star rest).left = '*' :: rest ∧ (star rest).taken ≠ [] := by
  unfold star
  split <;> simp [blockComment]

/-- A cut takes something and loses nothing. -/
theorem cut_append (vocabulary : Vocabulary) (first : Char) (rest : List Char) :
    (cut vocabulary first rest).taken ++ (cut vocabulary first rest).left = first :: rest ∧
      (cut vocabulary first rest).taken ≠ [] := by
  unfold cut
  split
  next => simp
  next operator _ h => exact operator?_append h
  next =>
    split
    next h => subst h; simp [lineComment, whileTrue]
    split
    next h => subst h; exact star_append rest
    split
    next h => subst h; exact ⟨quotedText_append _ _, by unfold quotedText; split <;> simp⟩
    split
    next h => exact ⟨whileTrue_append .., by simp [number, whileTrue, h]⟩
    split
    next h => exact ⟨whileTrue_append .., by simp [word, whileTrue, Char.isAlphanum, h]⟩
    next => simp

/-- **A cut loses nothing.** -/
theorem taken_append_left (vocabulary : Vocabulary) (first : Char) (rest : List Char) :
    (cut vocabulary first rest).taken ++ (cut vocabulary first rest).left = first :: rest :=
  (cut_append vocabulary first rest).1

/-- **A cut takes something.** -/
theorem taken_ne_nil (vocabulary : Vocabulary) (first : Char) (rest : List Char) :
    (cut vocabulary first rest).taken ≠ [] :=
  (cut_append vocabulary first rest).2

/-- What a cut leaves is shorter than the text. -/
theorem length_left_lt (vocabulary : Vocabulary) (first : Char) (rest : List Char) :
    (cut vocabulary first rest).left.length < (first :: rest).length := by
  have whole := congrArg List.length (taken_append_left vocabulary first rest)
  have some := List.length_pos_iff.2 (taken_ne_nil vocabulary first rest)
  simp only [List.length_append] at whole
  omega

end Cut

end ScriptFrontend
