import ScriptFrontend.Proofs.Lexeme.Steps
import ScriptFrontend.Proofs.Text.LineEnds

/-!
# Proofs/Lexeme/LineEnds — how lines end makes no difference to tokens

Taking the carriage returns out of a paired text leaves it with its line ends unified
(`unifyLineEnds_ofList`), and leaves the tokens as they are but for the line ends inside them
(`tokens_unify`).

The text and what is left of it are read side by side.  Rules are carried over
(`Rule.without_returns`), and the places of the two readings are the same wherever a token starts: a
carriage return between tokens, or one that a comment in front of the end of its line has taken,
puts them one column apart, and the newline behind it brings them together again (`InStep`).
-/

namespace ScriptFrontend

variable {vocabulary : Vocabulary}

/-! ## Places -/

/-- **Two places are in step** at a text: they are the same, or on one line at the end of which the
text starts. -/
def InStep (text : List Char) (place other : Location) : Prop :=
  other = place ∨ text.head? = some '\n' ∧ other.line = place.line

/-- Behind the front of a paired text places are in step, with its carriage returns and without. -/
theorem inStep_past {front back : List Char} (h : Paired (front ++ back)) (place : Location) :
    InStep back (place.past front) (place.past (dropReturns front)) := by
  induction front generalizing place with
  | nil => exact .inl rfl
  | cons c front ih =>
    by_cases hc : c = '\r'
    · subst hc
      rcases front with _ | ⟨d, front⟩
      · exact .inr ⟨h.1 rfl, rfl⟩
      · obtain rfl : d = '\n' := Option.some.inj (h.1 rfl)
        have hafter : (place.after '\r').after '\n' = place.after '\n' := rfl
        rw [Location.past_cons, Location.past_cons, hafter]
        exact ih h.2 place
    · rw [dropReturns_cons hc]
      exact ih h.2 (place.after c)

/-! ## Rules -/

/-- **The rules for quoted texts and comments**, whose lexemes may hold any blanks. -/
inductive Roomy : List Char → Kind → List Char → Prop where
  | text {body after : List Char} :
    '"' ∉ body → Roomy ('"' :: (body ++ '"' :: after)) .text ('"' :: (body ++ ['"']))
  | openText {body : List Char} : '"' ∉ body → Roomy ('"' :: body) .unknown ('"' :: body)
  | lineComment {body after : List Char} :
    '\n' ∉ body → (∀ c ∈ after.head?, c = '\n') →
    Roomy ('#' :: (body ++ after)) .comment ('#' :: body)
  | blockComment {body after : List Char} :
    (∀ front back, body ++ ['*', '*'] = front ++ '*' :: '*' :: back → back = []) →
    Roomy ('*' :: '*' :: (body ++ '*' :: '*' :: after)) .blockComment
      ('*' :: '*' :: (body ++ ['*', '*']))
  | openComment {body : List Char} :
    (∀ front back, body ≠ front ++ '*' :: '*' :: back) →
    Roomy ('*' :: '*' :: body) .blockComment ('*' :: '*' :: body)

theorem not_return_of_alphanum {lexeme : List Char} (h : ∀ c ∈ lexeme, Letter c ∨ Digit c) :
    '\r' ∉ lexeme := fun hmem => not_alphanum_of_isGap (by decide) (h _ hmem)

/-- No table has the carriage return. -/
theorem not_return_of_tables :
    (∀ entry ∈ soloTable, '\r' ∉ [entry.1]) ∧ (∀ entry ∈ operatorTable, '\r' ∉ [entry.1]) ∧
    ∀ entry ∈ pairTable, '\r' ∉ [entry.1.1, entry.1.2] := by
  decide

/-- **Only quoted texts and comments hold carriage returns.** -/
theorem Rule.not_return_or_roomy {text lexeme : List Char} {kind : Kind}
    (h : Rule vocabulary text kind lexeme) : '\r' ∉ lexeme ∨ Roomy text kind lexeme := by
  cases h with
  | word hletter hbody =>
    exact .inl (not_return_of_alphanum (List.forall_mem_cons.2 ⟨.inl hletter, hbody⟩))
  | number hdigit hbody =>
    refine .inl (not_return_of_alphanum (List.forall_mem_cons.2 ⟨.inr hdigit, fun c hc => ?_⟩))
    exact .inr (hbody c hc)
  | text hbody => exact .inr (.text hbody)
  | openText hbody => exact .inr (.openText hbody)
  | lineComment hbody hafter => exact .inr (.lineComment hbody hafter)
  | blockComment hbody => exact .inr (.blockComment hbody)
  | openComment hbody => exact .inr (.openComment hbody)
  | times => exact .inl (by decide)
  | pair hmem => exact .inl (not_return_of_tables.2.2 _ hmem)
  | single hmem | lone hmem => exact .inl (not_return_of_tables.2.1 _ hmem)
  | solo hmem => exact .inl (not_return_of_tables.1 _ hmem)
  | unknown hother =>
    refine .inl fun hmem => hother.gap ?_
    simp [← List.mem_singleton.1 hmem]

/-- No carriage return has been taken out from between two stars. -/
theorem stars_of_dropReturns {text front back : List Char} (hpaired : Paired text)
    (h : dropReturns text = front ++ '*' :: '*' :: back) :
    ∃ front' back', text = front' ++ '*' :: '*' :: back' ∧ dropReturns back' = back := by
  induction text generalizing front with
  | nil => simp at h
  | cons c text ih =>
    by_cases hc : c = '\r'
    · subst hc
      obtain ⟨front', back', rfl, hback⟩ := ih hpaired.2 h
      exact ⟨'\r' :: front', back', rfl, hback⟩
    · rw [dropReturns_cons hc] at h
      rcases front with _ | ⟨d, front⟩
      · obtain ⟨rfl, hrest⟩ := List.cons.inj h
        -- the second star comes next, since a carriage return would bring a newline
        have hstar : '*' ∈ text.head? := by
          have hhead := mem_head?_dropReturns hpaired.2 '*' (by simp [hrest])
          exact hhead.resolve_right (by decide)
        obtain ⟨rest, rfl⟩ := List.head?_eq_some_iff.1 hstar
        rw [dropReturns_cons (by decide)] at hrest
        exact ⟨[], rest, rfl, (List.cons.inj hrest).2⟩
      · obtain ⟨front', back', rfl, hback⟩ := ih hpaired.2 (List.cons.inj h).2
        exact ⟨c :: front', back', rfl, hback⟩

/-- A comment that is closed by its last two stars stays so. -/
theorem closed_dropReturns {body : List Char} (hpaired : Paired (body ++ ['*', '*']))
    (h : ∀ front back, body ++ ['*', '*'] = front ++ '*' :: '*' :: back → back = []) :
    ∀ front back, dropReturns body ++ ['*', '*'] = front ++ '*' :: '*' :: back → back = [] := by
  intro front back heq
  have hdrop : dropReturns (body ++ ['*', '*']) = front ++ '*' :: '*' :: back := by
    rw [dropReturns_append, ← heq]
    rfl
  obtain ⟨front', back', hsplit, rfl⟩ := stars_of_dropReturns hpaired hdrop
  rw [h front' back' hsplit, dropReturns_nil]

/-- A comment that nothing closes stays so. -/
theorem open_dropReturns {body : List Char} (hpaired : Paired body)
    (h : ∀ front back, body ≠ front ++ '*' :: '*' :: back) :
    ∀ front back, dropReturns body ≠ front ++ '*' :: '*' :: back := by
  intro front back heq
  obtain ⟨front', back', hsplit, -⟩ := stars_of_dropReturns hpaired heq
  exact h front' back' hsplit

/-- **A rule is carried over** to a text without its carriage returns. -/
theorem Rule.without_returns {kind : Kind} {lexeme after : List Char}
    (h : Rule vocabulary (lexeme ++ after) kind lexeme) (hpaired : Paired (lexeme ++ after)) :
    Rule vocabulary (dropReturns lexeme ++ dropReturns after) kind (dropReturns lexeme) := by
  have hhead := mem_head?_dropReturns hpaired.behind
  rcases h.not_return_or_roomy with hplain | hroomy
  · rw [dropReturns_eq_self hplain]
    exact h.follow (fun hnil _ => by rw [hnil, dropReturns_nil]) hhead
  generalize htext : lexeme ++ after = text at hroomy
  cases hroomy with
  | @text body after' hbody =>
    have hrule : Rule vocabulary ('"' :: (dropReturns body ++ '"' :: dropReturns after)) _ _ :=
      .text (not_mem_dropReturns hbody)
    simpa using hrule
  | @openText body hbody =>
    have hafter : after = [] := by simpa using htext
    subst hafter
    simpa using Rule.openText (not_mem_dropReturns hbody)
  | @lineComment body after' hbody hafter =>
    obtain rfl : after = after' := by simpa using htext
    refine .lineComment (not_mem_dropReturns hbody) fun c hc => ?_
    exact (hhead c hc).elim (hafter c) id
  | @blockComment body after' hbody =>
    have hbehind : Paired (body ++ ['*', '*'] ++ after) := hpaired.2.2
    have hrule : Rule vocabulary
        ('*' :: '*' :: (dropReturns body ++ '*' :: '*' :: dropReturns after)) _ _ :=
      .blockComment (closed_dropReturns (hbehind.before (by simp)) hbody)
    simpa using hrule
  | @openComment body hbody =>
    have hafter : after = [] := by simpa using htext
    subst hafter
    have hinner : Paired body := by simpa using hpaired.2.2
    simpa using Rule.openComment (open_dropReturns hinner hbody)

/-! ## Tokens -/

/-- A token with the line ends in its lexeme unified. -/
def Token.unified (token : Token) : Token := { token with lexeme := unifyLineEnds token.lexeme }

/-- The lexemes that a parser is given are paired. -/
theorem Rule.paired {kind : Kind} {lexeme after : List Char}
    (h : Rule vocabulary (lexeme ++ after) kind lexeme) (hkept : kind.isDiscarded = false)
    (hpaired : Paired (lexeme ++ after)) : Paired lexeme := by
  rcases h.not_return_or_roomy with hplain | hroomy
  · exact .of_not_mem hplain
  generalize htext : lexeme ++ after = text at hroomy
  cases hroomy with
  | @text body =>
    have hbehind : Paired (body ++ ['"'] ++ after) := hpaired.2
    exact ⟨fun heq => absurd heq (by decide), hbehind.before (by simp)⟩
  | openText =>
    have hafter : after = [] := by simpa using htext
    simpa [hafter] using hpaired
  | lineComment | blockComment | openComment => simp [Kind.isDiscarded] at hkept

/-- Where a lexeme starts, places in step are the same. -/
theorem InStep.eq_of_rule {kind : Kind} {lexeme after : List Char} {place other : Location}
    (h : InStep (lexeme ++ after) place other)
    (hrule : Rule vocabulary (lexeme ++ after) kind lexeme) : other = place := by
  rcases h with heq | ⟨hhead, -⟩
  · exact heq
  · obtain ⟨rest, htext⟩ := List.head?_eq_some_iff.1 hhead
    rw [htext] at hrule
    exact absurd hrule.not_isGap (by decide)

/-- Behind a newline, places that are in step in front of it are the same. -/
theorem InStep.after_eq {c : Char} {rest : List Char} {place other : Location}
    (h : InStep (c :: rest) place other) : other.after c = place.after c := by
  rcases h with rfl | ⟨hhead, hline⟩
  · rfl
  · obtain rfl : c = '\n' := Option.some.inj hhead
    simp [Location.after, hline]

namespace Reading

/-- **The tokens of a paired text without its carriage returns**, from places in step, are those of
the text with the line ends in them unified. -/
theorem tokens_dropReturns {text : List Char} {place other : Location} (hpaired : Paired text)
    (hstep : InStep text place other) :
    (⟨dropReturns text, other⟩ : Reading).tokens vocabulary =
      ((⟨text, place⟩ : Reading).tokens vocabulary).map Token.unified := by
  refine @tokens_induction vocabulary (fun text place list =>
    Paired text → ∀ other, InStep text place other →
      (⟨dropReturns text, other⟩ : Reading).tokens vocabulary = list.map Token.unified)
    ?_ ?_ ?_ ?_ ?_ text place hpaired other hstep
  · rintro place - other (rfl | ⟨hhead, -⟩)
    · exact tokens_nil _
    · simp at hhead
  · intro c rest place list hgap ih hpaired other hstep
    by_cases hc : c = '\r'
    · subst hc
      obtain rfl : other = place := hstep.resolve_right (by simp)
      exact ih hpaired.2 other (.inr ⟨hpaired.1 rfl, rfl⟩)
    · rw [dropReturns_cons hc, tokens_gap hgap]
      exact ih hpaired.2 _ (.inl hstep.after_eq)
  · intro kind lexeme after place list hrule hdiscarded ih hpaired other hstep
    obtain rfl := hstep.eq_of_rule hrule
    rw [dropReturns_append, tokens_discarded (hrule.without_returns hpaired) hdiscarded]
    exact ih hpaired.behind _ (inStep_past hpaired other)
  · intro lexeme after place hrule hpaired other hstep
    obtain rfl := hstep.eq_of_rule hrule
    rw [dropReturns_append, tokens_finish (hrule.without_returns hpaired),
      ← unifyLineEnds_ofList (hrule.paired rfl hpaired)]
    rfl
  · intro kind lexeme after place list hrule hkept hfinish ih _ hpaired other hstep
    obtain rfl := hstep.eq_of_rule hrule
    rw [dropReturns_append, tokens_kept (hrule.without_returns hpaired) hkept hfinish,
      ← unifyLineEnds_ofList (hrule.paired hkept hpaired),
      ih hpaired.behind _ (inStep_past hpaired other)]
    rfl

end Reading

/-- **Unifying the line ends of a paired text** unifies those in its tokens, and changes nothing
else of them. -/
theorem tokens_unify {text : String} (h : Paired text.toList) :
    tokens vocabulary (unifyLineEnds text) = (tokens vocabulary text).map Token.unified := by
  have hstart : Reading.start (unifyLineEnds text) = ⟨dropReturns text.toList, .start⟩ := by
    rw [Reading.start, unifyLineEnds, String.toList_ofList, unifyLineEndChars_eq h]
  rw [tokens, hstart]
  exact Reading.tokens_dropReturns h (.inl rfl)

end ScriptFrontend
