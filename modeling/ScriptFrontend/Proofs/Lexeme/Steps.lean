import ScriptFrontend.Proofs.Lexeme.Spelling

/-!
# Proofs/Lexeme/Steps — steps, calls and tokens

    calls  ──the tokens alone──▸  ←── steps ──up to the first end, without comments──▸ tokens

A reading and the calls on a stream go through a text alike (`Stream.map_steps_of_calls`).  What a
parser is given is all of it but the comments, unless a word ends the text (`Reading.tokens_eq`).

A token does not depend on all that is behind it: only one that is left open looks further than at
one character, and a newline stops every other one (`Rule.follow`).
-/

namespace ScriptFrontend

variable {vocabulary : Vocabulary}

/-! ## Steps and tokens -/

/-- If no word ends a text, the kind of the end is not that of a lexeme. -/
theorem Rule.ne_finish (hvocabulary : ∀ word, vocabulary.kind? word ≠ some .finish)
    {text lexeme : List Char} {kind : Kind} (h : Rule vocabulary text kind lexeme) :
    kind ≠ .finish := by
  rintro rfl
  have hkind := h.of_finish
  cases hentry : vocabulary.kind? (String.ofList lexeme) with
  | none => simp [Vocabulary.kindOf, hentry] at hkind
  | some kind =>
    rw [Vocabulary.kindOf_eq_of_kind? hentry] at hkind
    exact hvocabulary _ (hkind ▸ hentry)

namespace Reading

/-- **If no word ends a text, the tokens are those of all steps**, without the comments. -/
theorem tokens_eq (hvocabulary : ∀ word, vocabulary.kind? word ≠ some .finish)
    (reading : Reading) :
    reading.tokens vocabulary =
      ((reading.steps vocabulary).map Prod.fst).filter fun token => !token.kind.isDiscarded := by
  have hall : reading.stepsToFinish vocabulary = reading.steps vocabulary := by
    refine steps_induction (motive := fun _ _ list =>
      takeThrough (fun step => step.1.kind == .finish) list = list) ?_ ?_ ?_ reading.rest
      reading.place
    · exact fun _ => rfl
    · exact fun _ _ _ _ _ ih => ih
    · intro kind lexeme after place list hrule ih _
      simp [takeThrough, hrule.ne_finish hvocabulary, ih]
  rw [tokens, hall]

/-- What is taken up to a member with some property of its first part is known from the first
parts. -/
theorem map_takeThrough {α β : Type} (f : α → β) (test : β → Bool) (list : List α) :
    (takeThrough (fun a => test (f a)) list).map f = takeThrough test (list.map f) := by
  induction list with
  | nil => rfl
  | cons a list ih =>
    simp only [takeThrough, List.map_cons]
    split
    · rfl
    · rw [List.map_cons, ih]

/-- A gap is read over. -/
theorem steps_gaps {gap : List Char} (hgap : gap.all Cut.isGap = true) (rest : List Char)
    (place : Location) :
    (⟨gap ++ rest, place⟩ : Reading).steps vocabulary =
      (⟨rest, place.past gap⟩ : Reading).steps vocabulary := by
  induction gap generalizing place with
  | nil => rfl
  | cons c gap ih =>
    rw [List.all_cons, Bool.and_eq_true] at hgap
    rw [List.cons_append, steps_gap hgap.1, ih hgap.2, Location.past_cons]

end Reading

/-! ## Steps and calls -/

namespace Stream

variable {front back : List Char} {calls : List (Token × Stream)} {final : Token × Stream}

/-- Where a stream goes on depends on its text and on what is left of it. -/
theorem resume_congr {front' back' : List Char} (h : front ++ back = front' ++ back')
    (reading : Reading) :
    (between front back).resume reading = (between front' back').resume reading := by
  have hlength := congrArg List.length h
  rw [List.length_append, List.length_append] at hlength
  rw [resume, resume, ahead_between, ahead_between]
  simp only [between, h]
  congr 1
  omega

/-- **The calls are the steps**, each with the stream that goes on behind it. -/
theorem map_steps_resume (h : Calls vocabulary (between front back) calls final) :
    ((⟨back, Location.start.past front⟩ : Reading).steps vocabulary).map
        (fun step => (step.1, (between front back).resume step.2)) = calls ++ [final] := by
  refine calls_induction (motive := fun front back calls final =>
    ((⟨back, Location.start.past front⟩ : Reading).steps vocabulary).map
        (fun step => (step.1, (between front back).resume step.2)) = calls ++ [final]) ?_ ?_ h
  · intro front gap hgap
    have hresume := resume_between front gap []
    rw [List.append_nil] at hresume
    have hsteps : (⟨gap ++ [], Location.start.past front⟩ : Reading).steps vocabulary = _ :=
      Reading.steps_gaps hgap [] _
    rw [List.append_nil, ← Location.past_append] at hsteps
    rw [hsteps, Reading.steps_nil, List.map_singleton, hresume]
    rfl
  · intro front gap first rest calls final hgap hfirst ih
    have hrule : Rule vocabulary (first :: rest) _ (Cut.cut vocabulary first rest).taken :=
      Cut.rule_cut hfirst
    have hcut := Cut.taken_append_left vocabulary first rest
    have hwhole : front ++ gap ++ (Cut.cut vocabulary first rest).taken ++
        (Cut.cut vocabulary first rest).left = front ++ (gap ++ first :: rest) := by
      simp [hcut]
    have hresume := resume_between (front ++ gap) (Cut.cut vocabulary first rest).taken
      (Cut.cut vocabulary first rest).left
    rw [resume_congr ((List.append_assoc ..).symm.trans hwhole)] at hresume
    simp only [resume_congr hwhole] at ih
    rw [← hcut] at hrule
    rw [Location.past_append] at ih hresume
    rw [Reading.steps_gaps hgap, ← Location.past_append, ← hcut, Reading.steps_of_rule hrule,
      hcut, List.map_cons, ih, hresume]
    rfl

/-- **The calls answer with the tokens of the steps.** -/
theorem map_steps_of_calls (h : Calls vocabulary (between front back) calls final) :
    ((⟨back, Location.start.past front⟩ : Reading).steps vocabulary).map Prod.fst =
      calls.map Prod.fst ++ [final.1] := by
  have hsteps := congrArg (List.map Prod.fst) (map_steps_resume h)
  rw [List.map_map, List.map_append, List.map_singleton] at hsteps
  exact hsteps

/-- The tokens of a text are those that the calls answer with, up to the first end and without the
comments. -/
theorem tokens_of_calls (h : Calls vocabulary (between front back) calls final) :
    (⟨back, Location.start.past front⟩ : Reading).tokens vocabulary =
      (Reading.takeThrough (fun token => token.kind == .finish)
        (calls.map Prod.fst ++ [final.1])).filter fun token => !token.kind.isDiscarded := by
  rw [Reading.tokens, Reading.stepsToFinish, ← map_steps_of_calls h,
    ← Reading.map_takeThrough Prod.fst]

end Stream

/-! ## What stands behind a lexeme -/

/-- **Lexemes that are left open**: a quoted text and a comment between pairs of stars that nothing
closes. -/
def LeftOpen (lexeme : List Char) : Prop :=
  (∃ body, lexeme = '"' :: body ∧ '"' ∉ body) ∨
    ∃ body, lexeme = '*' :: '*' :: body ∧ ∀ front back, body ≠ front ++ '*' :: '*' :: back

/-- **A lexeme stays what it is** in front of another text that starts alike or with a newline, but
for one that is left open at the end of its text. -/
theorem Rule.follow {kind : Kind} {lexeme after other : List Char}
    (h : Rule vocabulary (lexeme ++ after) kind lexeme)
    (hopen : after = [] → LeftOpen lexeme → other = [])
    (hother : ∀ c ∈ other.head?, c ∈ after.head? ∨ c = '\n') :
    Rule vocabulary (lexeme ++ other) kind lexeme := by
  have hblank : Cut.isGap '\n' = true := by decide
  have hhead {P : Char → Prop} (hafter : ∀ c ∈ after.head?, P c) (hnewline : P '\n') :
      ∀ c ∈ other.head?, P c :=
    fun c hc => (hother c hc).elim (hafter c) fun heq => heq ▸ hnewline
  generalize htext : lexeme ++ after = text at h
  cases h with
  | @word first body after' hletter hbody hafter =>
    obtain rfl : after = after' := by simpa using htext
    exact .word hletter hbody (hhead hafter (not_alphanum_of_isGap hblank))
  | @number first body after' hdigit hbody hafter =>
    obtain rfl : after = after' := by simpa using htext
    exact .number hdigit hbody
      (hhead hafter fun hdigit => not_alphanum_of_isGap hblank (.inr hdigit))
  | @text body after' hbody =>
    have hrule : Rule vocabulary ('"' :: (body ++ '"' :: other)) _ _ := .text hbody
    simpa using hrule
  | @openText body hbody =>
    have hafter : after = [] := by simpa using htext
    obtain rfl := hopen hafter (.inl ⟨body, rfl, hbody⟩)
    simpa using Rule.openText hbody
  | @lineComment body after' hbody hafter =>
    obtain rfl : after = after' := by simpa using htext
    exact .lineComment hbody (hhead hafter rfl)
  | @blockComment body after' hbody =>
    have hrule : Rule vocabulary ('*' :: '*' :: (body ++ '*' :: '*' :: other)) _ _ :=
      .blockComment hbody
    simpa using hrule
  | @openComment body hbody =>
    have hafter : after = [] := by simpa using htext
    obtain rfl := hopen hafter (.inr ⟨body, rfl, hbody⟩)
    simpa using Rule.openComment hbody
  | @times after' hafter =>
    obtain rfl : after = after' := by simpa using htext
    exact .times (hhead hafter (by decide))
  | pair hmem => exact .pair hmem
  | @single first _ after' hmem hafter =>
    obtain rfl : after = after' := by simpa using htext
    exact .single hmem (hhead hafter fun _ => not_pair_of_isGap hblank)
  | @lone first after' hmem hafter =>
    obtain rfl : after = after' := by simpa using htext
    exact .lone hmem (hhead hafter fun _ => not_pair_of_isGap hblank)
  | solo hmem => exact .solo hmem
  | unknown hcharacter => exact .unknown hcharacter

end ScriptFrontend
