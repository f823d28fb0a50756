import ScriptFrontend.Proofs.Lexeme.Spelling

/-!
# Proofs/Lexeme/Listed — the tokens that a parser is given

Comments and gaps left out, the tokens of a text still stand at growing places, so no two of them
stand at the same one (`nodup_places`), and each but the last follows a lexical rule where it stands
(`exists_rule`).  Both are read off a reading step by step (`Reading.tokens_induction`).
-/

namespace ScriptFrontend

variable {vocabulary : Vocabulary}

/-! ## Places -/

namespace Location

/-- A place in front of another one: in a line above it, or in its line further left. -/
def Before (place other : Location) : Prop :=
  place.line < other.line ∨ place.line = other.line ∧ place.column < other.column

theorem Before.trans {first second third : Location} (h : first.Before second)
    (h' : second.Before third) : first.Before third := by
  unfold Before at *
  omega

theorem Before.ne {place other : Location} (h : place.Before other) : place ≠ other := by
  rintro rfl
  unfold Before at h
  omega

theorem before_after (place : Location) (c : Char) : place.Before (place.after c) := by
  unfold Before after
  split
  · exact .inl (Int.lt_succ _)
  · exact .inr ⟨rfl, Int.lt_succ _⟩

/-- Behind some characters the place is another one. -/
theorem before_past (place : Location) (c : Char) (text : List Char) :
    place.Before (place.past (c :: text)) := by
  induction text generalizing place c with
  | nil => exact place.before_after c
  | cons d text ih => exact (place.before_after c).trans (ih (place.after c) d)

end Location

namespace Reading

/-- Tokens stand at growing places, all of them from a place on. -/
structure Ordered (place : Location) (list : List Token) : Prop where
  from_place : ∀ token ∈ list, place = token.place ∨ place.Before token.place
  growing : list.Pairwise fun one next => one.place.Before next.place

theorem Ordered.mono {place next : Location} {list : List Token} (h : Ordered next list)
    (hbefore : place.Before next) : Ordered place list where
  from_place token hmem := by
    rcases h.from_place token hmem with heq | hnext
    · exact .inr (heq ▸ hbefore)
    · exact .inr (hbefore.trans hnext)
  growing := h.growing

theorem ordered_singleton (token : Token) : Ordered token.place [token] where
  from_place := by simp
  growing := by simp

/-- A lexeme is not empty, so what is behind it stands further on. -/
theorem before_past_of_rule {kind : Kind} {lexeme after : List Char}
    (h : Rule vocabulary (lexeme ++ after) kind lexeme) (place : Location) :
    place.Before (place.past lexeme) := by
  obtain ⟨c, tail, rfl⟩ : ∃ c tail, lexeme = c :: tail := by
    generalize lexeme ++ after = text at h
    cases h <;> exact ⟨_, _, rfl⟩
  exact place.before_past c tail

/-- **The tokens of a reading stand at growing places.** -/
theorem ordered_tokens (vocabulary : Vocabulary) (rest : List Char) (place : Location) :
    Ordered place ((⟨rest, place⟩ : Reading).tokens vocabulary) := by
  refine tokens_induction (motive := fun _ place list => Ordered place list) ?_ ?_ ?_ ?_ ?_ rest
    place
  · exact fun place => ordered_singleton (.finish place)
  · exact fun c _ place _ _ ih => ih.mono (place.before_after c)
  · exact fun _ _ _ place _ hrule _ ih => ih.mono (before_past_of_rule hrule place)
  · exact fun lexeme _ place _ => ordered_singleton ⟨.finish, String.ofList lexeme, place⟩
  · intro kind lexeme after place list hrule _ _ ih _
    have hlater := ih.mono (before_past_of_rule hrule place)
    refine ⟨List.forall_mem_cons.2 ⟨.inl rfl, hlater.from_place⟩,
      List.pairwise_cons.2 ⟨fun token hmem => ?_, ih.growing⟩⟩
    rcases ih.from_place token hmem with heq | hbefore
    · exact heq ▸ before_past_of_rule hrule place
    · exact (before_past_of_rule hrule place).trans hbefore

end Reading

/-- **No two tokens of a text stand at the same place.** -/
theorem nodup_places (vocabulary : Vocabulary) (text : String) :
    ((tokens vocabulary text).map (·.place)).Nodup := by
  have hordered := Reading.ordered_tokens vocabulary text.toList .start
  exact List.pairwise_map.2 (hordered.growing.imp fun h => h.ne)

/-! ## Rules -/

/-- **Every token of a text follows a rule where it stands**, but for the one that ends it. -/
theorem exists_rule {text : String} {token : Token} (hmem : token ∈ tokens vocabulary text)
    (hkind : token.kind ≠ .finish) :
    ∃ front lexeme after, text.toList = front ++ (lexeme ++ after) ∧
      Rule vocabulary (lexeme ++ after) token.kind lexeme ∧
      token.lexeme = String.ofList lexeme := by
  refine Reading.tokens_induction (motive := fun rest _ list =>
    ∀ token ∈ list, token.kind ≠ .finish → ∃ front lexeme after, rest = front ++ (lexeme ++ after) ∧
      Rule vocabulary (lexeme ++ after) token.kind lexeme ∧ token.lexeme = String.ofList lexeme)
    ?_ ?_ ?_ ?_ ?_ text.toList .start token hmem hkind
  · simp [Token.finish]
  · intro c rest place list _ ih token hmem hkind
    obtain ⟨front, lexeme, after, rfl, hrule, hlexeme⟩ := ih token hmem hkind
    exact ⟨c :: front, lexeme, after, rfl, hrule, hlexeme⟩
  · intro kind comment rest place list _ _ ih token hmem hkind
    obtain ⟨front, lexeme, after, rfl, hrule, hlexeme⟩ := ih token hmem hkind
    exact ⟨comment ++ front, lexeme, after, (List.append_assoc ..).symm, hrule, hlexeme⟩
  · simp
  · intro kind first rest place list hfirst _ _ ih _
    refine List.forall_mem_cons.2 ⟨fun _ => ⟨[], first, rest, rfl, hfirst, rfl⟩, ?_⟩
    intro token hmem hkind
    obtain ⟨front, lexeme, after, rfl, hrule, hlexeme⟩ := ih token hmem hkind
    exact ⟨first ++ front, lexeme, after, (List.append_assoc ..).symm, hrule, hlexeme⟩

end ScriptFrontend
