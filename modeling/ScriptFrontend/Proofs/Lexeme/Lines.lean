import ScriptFrontend.Proofs.Lexeme.Steps

/-!
# Proofs/Lexeme/Lines — texts are read line by line

    tokens (a, newline, b)   =   tokens a without its end,  tokens b in lower lines

Behind a text and a newline another text is read as if it stood alone, further down
(`tokens_line`).  The one thing that can carry on over the newline is a lexeme that is left open, a
quoted text or a comment between stars; a comment in the last line of the first text ends there.

The readings are followed through the first text.  Each token of it stays the same with more behind
it (`Rule.follow`), and at its end the newline is read over.
-/

namespace ScriptFrontend

variable {vocabulary : Vocabulary}

/-! ## Lower lines -/

/-- The place some lines further down. -/
def Location.lowered (lines : Int) (place : Location) : Location :=
  ⟨place.line + lines, place.column⟩

/-- A token some lines further down. -/
def Token.lowered (lines : Int) (token : Token) : Token :=
  { token with place := token.place.lowered lines }

namespace Location

theorem after_lowered (lines : Int) (place : Location) (c : Char) :
    (place.lowered lines).after c = (place.after c).lowered lines := by
  by_cases hc : c = '\n'
  · simp [after, lowered, hc, Int.add_right_comm]
  · simp [after, lowered, hc]

theorem past_lowered (lines : Int) (place : Location) (text : List Char) :
    (place.lowered lines).past text = (place.past text).lowered lines := by
  induction text generalizing place with
  | nil => rfl
  | cons c text ih => rw [past_cons, past_cons, after_lowered, ih]

/-- Behind a text and a newline the next line starts. -/
theorem past_newline (text : List Char) :
    (start.past text).after '\n' = start.lowered (1 + text.count '\n') := by
  rw [past_start, after, if_pos rfl, lowered]
  exact congrArg (Location.mk · 1) (by simp only [start]; omega)

end Location

namespace Reading

/-- **A text is read alike in lower lines.** -/
theorem map_steps_lowered (lines : Int) (rest : List Char) (place : Location) :
    ((⟨rest, place.lowered lines⟩ : Reading).steps vocabulary).map Prod.fst =
      (((⟨rest, place⟩ : Reading).steps vocabulary).map Prod.fst).map (Token.lowered lines) := by
  refine steps_induction (motive := fun rest place list =>
    ((⟨rest, place.lowered lines⟩ : Reading).steps vocabulary).map Prod.fst =
      (list.map Prod.fst).map (Token.lowered lines)) ?_ ?_ ?_ rest place
  · intro place
    rw [steps_nil]
    rfl
  · intro c rest place list hgap ih
    rw [steps_gap hgap, Location.after_lowered, ih]
  · intro kind lexeme after place list hrule ih _
    rw [steps_of_rule hrule, Location.past_lowered, List.map_cons, ih]
    rfl

/-! ## The law -/

/-- **What stands in front of a newline is read as if nothing came behind it**, and what stands
behind it as if it started there, if no lexeme is left open. -/
theorem map_steps_line {front : List Char} {place : Location}
    (hclosed : ∀ step ∈ (⟨front, place⟩ : Reading).steps vocabulary,
      ¬ LeftOpen step.1.lexeme.toList) (back : List Char) :
    ∃ list, ((⟨front, place⟩ : Reading).steps vocabulary).map Prod.fst =
        list ++ [.finish (place.past front)] ∧
      ((⟨front ++ '\n' :: back, place⟩ : Reading).steps vocabulary).map Prod.fst =
        list ++ ((⟨back, (place.past front).after '\n'⟩ : Reading).steps vocabulary).map
          Prod.fst := by
  refine steps_induction (motive := fun front place steps =>
    (∀ step ∈ steps, ¬ LeftOpen step.1.lexeme.toList) →
    ∃ list, steps.map Prod.fst = list ++ [.finish (place.past front)] ∧
      ((⟨front ++ '\n' :: back, place⟩ : Reading).steps vocabulary).map Prod.fst =
        list ++ ((⟨back, (place.past front).after '\n'⟩ : Reading).steps vocabulary).map
          Prod.fst) ?_ ?_ ?_ front place hclosed
  · intro place _
    exact ⟨[], rfl, by rw [List.nil_append, steps_gap (by decide)]; rfl⟩
  · intro c front place steps hgap ih hclosed
    obtain ⟨list, halone, hline⟩ := ih hclosed
    exact ⟨list, halone, by rw [List.cons_append, steps_gap hgap, hline]; rfl⟩
  · intro kind lexeme after place steps hrule ih _ hclosed
    rw [List.forall_mem_cons] at hclosed
    obtain ⟨list, halone, hline⟩ := ih hclosed.2
    have hnotopen : ¬ LeftOpen lexeme := by simpa using hclosed.1
    have hfollow : Rule vocabulary (lexeme ++ (after ++ '\n' :: back)) kind lexeme := by
      refine hrule.follow (fun _ hopen => absurd hopen hnotopen) fun c hc => ?_
      rcases after with _ | ⟨d, after⟩
      · exact .inr (Option.some.inj hc).symm
      · exact .inl hc
    refine ⟨⟨kind, String.ofList lexeme, place⟩ :: list, ?_, ?_⟩
    · rw [List.map_cons, halone, Location.past_append]
      rfl
    · rw [List.append_assoc, steps_of_rule hfollow, List.map_cons, hline, Location.past_append]
      rfl

end Reading

theorem append_newline (a b : String) :
    (a ++ "\n" ++ b).toList = a.toList ++ '\n' :: b.toList := by
  simp

/-- **Texts are read line by line.**  If no word ends a text, and no quoted text and no comment
between stars is left open in the first of two texts, then the tokens of both with a newline between
them are those of the first one but for its end, and then those of the second one, lower by the
lines of the first. -/
theorem tokens_line {a b : String} (hvocabulary : ∀ word, vocabulary.kind? word ≠ some .finish)
    (hclosed : ∀ step ∈ (Reading.start a).steps vocabulary, ¬ LeftOpen step.1.lexeme.toList) :
    ∃ list place, tokens vocabulary a = list ++ [.finish place] ∧
      tokens vocabulary (a ++ "\n" ++ b) =
        list ++ (tokens vocabulary b).map (Token.lowered (1 + a.toList.count '\n')) := by
  obtain ⟨list, halone, hline⟩ := Reading.map_steps_line hclosed b.toList
  refine ⟨list.filter fun token => !token.kind.isDiscarded, Location.start.past a.toList, ?_, ?_⟩
  · rw [tokens, Reading.tokens_eq hvocabulary, Reading.start, halone, List.filter_append]
    rfl
  · rw [Location.past_newline, Reading.map_steps_lowered] at hline
    rw [tokens, tokens, Reading.tokens_eq hvocabulary, Reading.tokens_eq hvocabulary,
      Reading.start, append_newline, hline, List.filter_append, List.filter_map]
    rfl

/-- A comment in the last line of the first text is no more than that line. -/
theorem tokens_line_comment :
    tokens .standard ("x = \"#\" # y" ++ "\n" ++ "* z") =
      [⟨.identifier, "x", ⟨1, 1⟩⟩, ⟨.operator .assign, "=", ⟨1, 3⟩⟩, ⟨.text, "\"#\"", ⟨1, 5⟩⟩] ++
        (tokens .standard "* z").map (Token.lowered 1) := by
  have hvocabulary : ∀ word, Vocabulary.standard.kind? word ≠ some .finish := by
    intro word hkind
    have hall : ∀ entry ∈ Vocabulary.standard.entries, entry.2 ≠ .finish := by decide
    exact hall _ (Cut.mem_of_lookup hkind) rfl
  have hlexemes : ((Reading.start "x = \"#\" # y").steps .standard).map
      (fun step => step.1.lexeme.toList) =
        [['x'], ['='], ['"', '#', '"'], ['#', ' ', 'y'], []] := by cbv
  have hclosed : ∀ step ∈ (Reading.start "x = \"#\" # y").steps .standard,
      ¬ LeftOpen step.1.lexeme.toList := by
    rw [← List.forall_mem_map (P := fun lexeme => ¬ LeftOpen lexeme), hlexemes]
    simp [LeftOpen]
  obtain ⟨list, place, hfirst, hboth⟩ := tokens_line (b := "* z") hvocabulary hclosed
  have hlist : list = [⟨.identifier, "x", ⟨1, 1⟩⟩, ⟨.operator .assign, "=", ⟨1, 3⟩⟩,
      ⟨.text, "\"#\"", ⟨1, 5⟩⟩] := by
    have heval : tokens .standard "x = \"#\" # y" = [⟨.identifier, "x", ⟨1, 1⟩⟩,
        ⟨.operator .assign, "=", ⟨1, 3⟩⟩, ⟨.text, "\"#\"", ⟨1, 5⟩⟩] ++ [.finish ⟨1, 12⟩] := by cbv
    exact (List.append_inj' (hfirst.symm.trans heval) rfl).1
  have hcount : "x = \"#\" # y".toList.count '\n' = 0 := by decide
  rw [hboth, hlist, hcount]
  rfl

end ScriptFrontend
