import ScriptFrontend.Lexeme.Stream

/-!
# Proofs/Lexeme/Calls — calling for the next token until nothing is left

`Calls vocabulary s calls` says that the calls for the next token on a stream answer with the given
tokens, each with the stream that the call leaves, and that the last call is the first one in front
of which only a gap was left.

A stream that has come somewhere from the start of its text is given by the characters on both
sides of its position (`Stream.between`).  Every call keeps that form (`nextToken_gap`,
`nextToken_cut`), so the calls exist and are unique (`exists_calls`, `Calls.unique`), and facts
about all of them are found by induction on `Calls`.
-/

namespace ScriptFrontend

namespace Stream

/-- The stream that has come from the start of a text behind its front. -/
def between (front back : List Char) : Stream :=
  ⟨front ++ back, front.length, Location.start.past front⟩

/-- A fresh stream. -/
def ofText (text : String) : Stream := ⟨text.toList, 0, .start⟩

/-- Whether nothing is left of a stream but a gap. -/
def exhausted (s : Stream) : Bool := s.ahead.all Cut.isGap

variable {vocabulary : Vocabulary} {front gap back : List Char}

@[simp] theorem ahead_between (front back : List Char) : (between front back).ahead = back := by
  simp [between, ahead]

theorem reading_between (front back : List Char) :
    (between front back).reading = ⟨back, Location.start.past front⟩ := by
  rw [reading, ahead_between]
  rfl

/-- A run of characters that pass a test is found by scanning if it is as long as it can be. -/
theorem takeWhile_run {test : Char → Bool} {run after : List Char}
    (hrun : ∀ c ∈ run, test c = true) (hafter : ∀ c ∈ after.head?, test c = false) :
    (run ++ after).takeWhile test = run ∧ (run ++ after).dropWhile test = after := by
  rw [List.takeWhile_append_of_pos hrun, List.dropWhile_append_of_pos hrun]
  rcases after with _ | ⟨c, rest⟩
  · exact ⟨List.append_nil _, rfl⟩
  · simp [hafter c rfl]

/-- Every text starts with such a run. -/
theorem exists_run (test : Char → Bool) (text : List Char) :
    ∃ run after, text = run ++ after ∧ (∀ c ∈ run, test c = true) ∧
      ∀ c ∈ after.head?, test c = false := by
  refine ⟨text.takeWhile test, text.dropWhile test, List.takeWhile_append_dropWhile.symm,
    List.all_eq_true.1 List.all_takeWhile, fun c hc => ?_⟩
  have hhead := List.head?_dropWhile_not test text
  rw [Option.mem_def.1 hc] at hhead
  simpa using hhead

/-- A text is a gap, or a gap and something that belongs to none. -/
theorem gap_cases (text : List Char) :
    text.all Cut.isGap = true ∨
      ∃ gap first rest, text = gap ++ first :: rest ∧ gap.all Cut.isGap = true ∧
        Cut.isGap first = false := by
  obtain ⟨gap, after, rfl, hgap, hafter⟩ := exists_run Cut.isGap text
  rcases after with _ | ⟨first, rest⟩
  · exact .inl (by simpa using hgap)
  · exact .inr ⟨gap, first, rest, rfl, List.all_eq_true.2 hgap, hafter first rfl⟩

theorem position_between_nonneg (front back : List Char) : ¬ (between front back).position < 0 :=
  Int.not_lt.2 (Int.natCast_nonneg _)

/-- A stream that stands in its text has no leading characters. -/
theorem intoText_between (front back : List Char) :
    (between front back).intoText = ⟨.ok (), between front back⟩ := by
  have hpos := position_between_nonneg front back
  have hlead : (between front back).leading = [] := if_neg hpos
  rw [intoText, if_neg (by omega), hlead]
  simp [past]

/-- Where a stream stands, a call is a step of its reading. -/
theorem nextToken_between (vocabulary : Vocabulary) (front back : List Char) :
    (between front back).nextToken vocabulary =
      ⟨.ok ((between front back).reading.next vocabulary).1,
        (between front back).resume ((between front back).reading.next vocabulary).2⟩ := by
  rw [nextToken, intoText_between]
  rfl

/-- A gap moves the place of a reading on. -/
theorem skipGap_between (front : List Char) {gap back : List Char} (hgap : gap.all Cut.isGap = true)
    (hback : ∀ c ∈ back.head?, Cut.isGap c = false) :
    (between front (gap ++ back)).reading.skipGap =
      ⟨back, Location.start.past (front ++ gap)⟩ := by
  obtain ⟨htake, hdrop⟩ := takeWhile_run (List.all_eq_true.1 hgap) hback
  simp only [Reading.skipGap, reading_between]
  rw [htake, hdrop, Location.past_append]

/-- A stream goes on behind what has been taken of it. -/
theorem resume_between (front taken back : List Char) :
    (between front (taken ++ back)).resume ⟨back, Location.start.past (front ++ taken)⟩ =
      between (front ++ taken) back := by
  rw [resume, ahead_between]
  simp only [between, List.append_assoc, List.length_append]
  congr 1
  omega

/-- **A call where only a gap is left** answers with the token that ends the text. -/
theorem nextToken_gap (hgap : gap.all Cut.isGap = true) :
    (between front gap).nextToken vocabulary =
      ⟨.ok (.finish (Location.start.past (front ++ gap))), between (front ++ gap) []⟩ := by
  have hnone : ∀ c ∈ ([] : List Char).head?, Cut.isGap c = false := by simp
  have hskip := skipGap_between front hgap hnone
  have hresume := resume_between front gap []
  rw [List.append_nil] at hskip hresume
  rw [nextToken_between, Reading.next, hskip]
  simp only [hresume]

/-- **A call where more is left** answers with the cut behind the gap. -/
theorem nextToken_cut {first : Char} {rest : List Char} (hgap : gap.all Cut.isGap = true)
    (hfirst : Cut.isGap first = false) :
    (between front (gap ++ first :: rest)).nextToken vocabulary =
      ⟨.ok ⟨(Cut.cut vocabulary first rest).kind,
          String.ofList (Cut.cut vocabulary first rest).taken,
          Location.start.past (front ++ gap)⟩,
        between (front ++ gap ++ (Cut.cut vocabulary first rest).taken)
          (Cut.cut vocabulary first rest).left⟩ := by
  have hstop : ∀ c ∈ (first :: rest).head?, Cut.isGap c = false := fun c hc => by
    simpa [← Option.mem_some.1 hc] using hfirst
  have hskip := skipGap_between front hgap hstop
  have hresume := resume_between front (gap ++ (Cut.cut vocabulary first rest).taken)
    (Cut.cut vocabulary first rest).left
  rw [List.append_assoc, Cut.taken_append_left, ← List.append_assoc] at hresume
  rw [nextToken_between, Reading.next, hskip]
  simp only
  rw [← Location.past_append, hresume]

/-! ## All calls -/

/-- **The calls for the next token on a stream**, and the final one, in front of which only a gap is
left.  Each call is the token that it answers with and the stream that it leaves. -/
inductive Calls (vocabulary : Vocabulary) :
    Stream → List (Token × Stream) → Token × Stream → Prop where
  | final {s behind : Stream} {token : Token} :
    s.exhausted = true → s.nextToken vocabulary = ⟨.ok token, behind⟩ →
    Calls vocabulary s [] (token, behind)
  | more {s behind : Stream} {token : Token} {calls : List (Token × Stream)}
    {final : Token × Stream} :
    s.exhausted = false → s.nextToken vocabulary = ⟨.ok token, behind⟩ →
    Calls vocabulary behind calls final → Calls vocabulary s ((token, behind) :: calls) final

/-- Where a call starts: as many characters in front of the position that it leaves as its lexeme
has. -/
def startOf (call : Token × Stream) : Nat := call.2.position.toNat - call.1.lexeme.length

/-- The call that takes a cut behind a gap. -/
def cutCall (vocabulary : Vocabulary) (front gap : List Char) (first : Char) (rest : List Char) :
    Token × Stream :=
  (⟨(Cut.cut vocabulary first rest).kind, String.ofList (Cut.cut vocabulary first rest).taken,
      Location.start.past (front ++ gap)⟩,
    between (front ++ gap ++ (Cut.cut vocabulary first rest).taken)
      (Cut.cut vocabulary first rest).left)

theorem startOf_cutCall (vocabulary : Vocabulary) (front gap : List Char) (first : Char)
    (rest : List Char) : startOf (cutCall vocabulary front gap first rest) = (front ++ gap).length := by
  simp only [startOf, cutCall, between, Int.toNat_natCast, String.length_ofList]
  rw [List.length_append, Nat.add_sub_cancel]

theorem exhausted_between (front back : List Char) :
    (between front back).exhausted = back.all Cut.isGap := by
  rw [exhausted, ahead_between]

theorem all_isGap_append_cons {first : Char} {rest : List Char} (hfirst : Cut.isGap first = false) :
    (gap ++ first :: rest).all Cut.isGap = false := by
  simp [hfirst]

/-- **A fact about all calls**, by induction on what is left: it holds of the final call, and each
call that takes a cut keeps it. -/
theorem calls_induction
    {motive : List Char → List Char → List (Token × Stream) → Token × Stream → Prop}
    (final : ∀ front gap, gap.all Cut.isGap = true →
      motive front gap []
        (.finish (Location.start.past (front ++ gap)), between (front ++ gap) []))
    (more : ∀ front gap first rest calls final, gap.all Cut.isGap = true →
      Cut.isGap first = false →
      motive (front ++ gap ++ (Cut.cut vocabulary first rest).taken)
        (Cut.cut vocabulary first rest).left calls final →
      motive front (gap ++ first :: rest) (cutCall vocabulary front gap first rest :: calls) final)
    {front back : List Char} {calls : List (Token × Stream)} {last : Token × Stream}
    (h : Calls vocabulary (between front back) calls last) : motive front back calls last := by
  generalize hs : between front back = s at h
  induction h generalizing front back with
  | final hall hnext =>
    subst hs
    rw [exhausted_between] at hall
    rw [nextToken_gap hall] at hnext
    obtain ⟨htoken, rfl⟩ := Call.mk.inj hnext
    obtain rfl := Except.ok.inj htoken
    exact final front back hall
  | more hmore hnext _ ih =>
    subst hs
    rw [exhausted_between] at hmore
    rcases gap_cases back with hall | ⟨gap, first, rest, rfl, hgap, hfirst⟩
    · simp [hall] at hmore
    · rw [nextToken_cut hgap hfirst] at hnext
      obtain ⟨htoken, rfl⟩ := Call.mk.inj hnext
      obtain rfl := Except.ok.inj htoken
      exact more front gap first rest _ _ hgap hfirst (ih rfl)

/-- The calls come to an end, by induction on the length of what is left. -/
theorem exists_calls (vocabulary : Vocabulary) (front back : List Char) :
    ∃ calls final, Calls vocabulary (between front back) calls final := by
  rcases gap_cases back with hall | ⟨gap, first, rest, hsplit, hgap, hfirst⟩
  · exact ⟨[], _, .final ((exhausted_between _ _).trans hall) (nextToken_gap hall)⟩
  · obtain ⟨calls, final, hcalls⟩ := exists_calls vocabulary
      (front ++ gap ++ (Cut.cut vocabulary first rest).taken) (Cut.cut vocabulary first rest).left
    rw [hsplit]
    exact ⟨_, final, .more ((exhausted_between _ _).trans (all_isGap_append_cons hfirst))
      (nextToken_cut hgap hfirst) hcalls⟩
termination_by back.length
decreasing_by
  have := Cut.length_left_lt vocabulary first rest
  rw [hsplit, List.length_append]
  omega

/-- The calls are unique. -/
theorem Calls.unique {s : Stream} {calls others : List (Token × Stream)}
    {final other : Token × Stream} (h : Calls vocabulary s calls final)
    (h' : Calls vocabulary s others other) : others = calls ∧ other = final := by
  induction h generalizing others other with
  | final hall hnext =>
    rcases h' with ⟨-, hnext'⟩ | ⟨hmore, -, -⟩
    · obtain ⟨rfl, rfl⟩ := by simpa using hnext.symm.trans hnext'
      exact ⟨rfl, rfl⟩
    · simp [hall] at hmore
  | more hmore hnext _ ih =>
    rcases h' with ⟨hall, -⟩ | ⟨-, hnext', hcalls⟩
    · simp [hmore] at hall
    · obtain ⟨rfl, rfl⟩ := by simpa using hnext.symm.trans hnext'
      obtain ⟨rfl, rfl⟩ := ih hcalls
      exact ⟨rfl, rfl⟩

end Stream

end ScriptFrontend
