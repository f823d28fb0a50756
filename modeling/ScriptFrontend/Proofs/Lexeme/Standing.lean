import ScriptFrontend.Proofs.Lexeme.Tiling

/-!
# Proofs/Lexeme/Standing — where a stream can stand

Whatever a fresh stream is asked for, and whatever it was asked for before, it stands between two
parts of its text, and its line and its column are those that its position has in the text.  It
never goes back, and a character that is not there to be consumed leaves it as it is (`Steady`).

A stream has come **behind** some characters if these are a front of what was ahead (`Behind`).
Every call comes behind some characters, whether it answers or fails on the way: so does each part
of a call, and one call after the other (`behind_bind`).  That holds wherever the stream stands, so
it is kept along every list of requests (`behind_after`).
-/

namespace ScriptFrontend

/-! ## Readings further on -/

namespace Reading

variable {vocabulary : Vocabulary}

/-- A reading further on in the same text. -/
def Reaches (reading other : Reading) : Prop :=
  ∃ read, reading.rest = read ++ other.rest ∧ other.place = reading.place.past read

theorem Reaches.refl (reading : Reading) : reading.Reaches reading := ⟨[], rfl, rfl⟩

theorem Reaches.trans {first second third : Reading} (h : first.Reaches second)
    (h' : second.Reaches third) : first.Reaches third := by
  obtain ⟨read, hrest, hplace⟩ := h
  obtain ⟨more, hrest', hplace'⟩ := h'
  exact ⟨read ++ more, by rw [hrest, hrest', List.append_assoc],
    by rw [hplace', hplace, Location.past_append]⟩

theorem reaches_skipGap (reading : Reading) : reading.Reaches reading.skipGap :=
  ⟨reading.rest.takeWhile Cut.isGap, List.takeWhile_append_dropWhile.symm, rfl⟩

/-- The next token leads further on: over the gap in front of it, and over its characters. -/
theorem reaches_next (vocabulary : Vocabulary) (reading : Reading) :
    reading.Reaches (reading.next vocabulary).2 := by
  refine reading.reaches_skipGap.trans ?_
  rcases hrest : reading.skipGap.rest with _ | ⟨first, rest⟩
  · exact ⟨[], by simp [next, hrest], by simp [next, hrest]⟩
  · refine ⟨(Cut.cut vocabulary first rest).taken, ?_, by simp [next, hrest]⟩
    simp only [next, hrest]
    exact (Cut.taken_append_left vocabulary first rest).symm

/-- **All steps lead further on.** -/
theorem reaches_steps (reading : Reading) :
    ∀ step ∈ reading.steps vocabulary, reading.Reaches step.2 := by
  fun_induction steps vocabulary reading with
  | case1 reading h => simpa using reading.reaches_next vocabulary
  | case2 reading first rest h ih =>
    refine List.forall_mem_cons.2 ⟨reading.reaches_next vocabulary, fun step hmem => ?_⟩
    exact (reading.reaches_next vocabulary).trans (ih step hmem)

theorem takeThrough_prefix {α : Type} (test : α → Bool) (list : List α) :
    takeThrough test list <+: list := by
  induction list with
  | nil => exact List.prefix_refl _
  | cons a rest ih =>
    rw [takeThrough]
    split
    · exact ⟨rest, rfl⟩
    · exact (List.prefix_cons_inj a).2 ih

end Reading

namespace Stream

variable {α β : Type} {vocabulary : Vocabulary} {front back : List Char}

/-! ## Calls -/

/-- **A stream that has come behind some of what was ahead.** -/
def Behind (front back : List Char) (s : Stream) : Prop :=
  ∃ read rest, back = read ++ rest ∧ s = between (front ++ read) rest

theorem behind_here (front back : List Char) : Behind front back (between front back) :=
  ⟨[], back, rfl, by rw [List.append_nil]⟩

/-- Behind characters that are ahead. -/
theorem past_between (front read rest : List Char) :
    (between front (read ++ rest)).past read = between (front ++ read) rest := by
  simp [past, between, Location.past_append]

theorem behind_past {read rest : List Char} (h : read ++ rest = back) :
    Behind front back ((between front back).past read) :=
  ⟨read, rest, h.symm, by rw [← h, past_between]⟩

theorem Behind.trans {s t : Stream} (h : Behind front back s)
    (h' : ∀ front back, s = between front back → Behind front back t) : Behind front back t := by
  obtain ⟨read, rest, rfl, hs⟩ := h
  obtain ⟨more, left, rfl, rfl⟩ := h' _ _ hs
  exact ⟨read ++ more, left, (List.append_assoc ..).symm, by rw [List.append_assoc]⟩

/-- One call after the other: the second one goes on from where the first one has come, if that one
answers. -/
theorem behind_bind {call : Call α} {f : α → Stream → Call β}
    (hcall : Behind front back call.stream)
    (hf : ∀ a front back, Behind front back (f a (between front back)).stream) :
    Behind front back (call.bind f).stream := by
  rw [Call.bind]
  split
  next a _ => exact hcall.trans fun front back hs => hs ▸ hf a front back
  next => exact hcall

/-- At the end nothing is consumed. -/
theorem next_between_nil (front : List Char) :
    (between front []).next =
      ⟨.error (.pastEnd front.length (Location.start.past front).line), between front []⟩ := by
  simp [next, following, atEnd, between]

theorem next_between_cons (front : List Char) (c : Char) (rest : List Char) :
    (between front (c :: rest)).next = ⟨.ok c, between (front ++ [c]) rest⟩ := by
  have hmore : (between front (c :: rest)).atEnd = false := by
    simp only [atEnd, between, List.length_append, List.length_cons, decide_eq_false_iff_not]
    omega
  have hchar :
      (between front (c :: rest)).charAt? (between front (c :: rest)).position = some c := by
    rw [charAt?, if_neg (position_between_nonneg _ _)]
    exact List.getElem?_append_right (Nat.le_refl _) |>.trans (by simp)
  have hfollowing : (between front (c :: rest)).following = .ok c := by
    rw [following, hmore, if_neg (position_between_nonneg _ _), hchar]
    rfl
  rw [next, hfollowing]
  exact congrArg (Call.mk (.ok c)) (past_between front [c] rest)

theorem behind_next (front back : List Char) :
    Behind front back (between front back).next.stream := by
  rcases back with _ | ⟨c, rest⟩
  · rw [next_between_nil]
    exact behind_here front []
  · rw [next_between_cons]
    exact ⟨[c], rest, rfl, rfl⟩

/-- A gap is skipped. -/
theorem behind_skipGap (front back : List Char) :
    Behind front back (between front back).skipGap.stream := by
  rw [skipGap, intoText_between]
  exact behind_past (by rw [ahead_between]; exact List.takeWhile_append_dropWhile)

/-! ## Single forms of token

Each of them takes a cut of what is ahead, some of them behind characters that they have consumed
unseen. -/

theorem behind_taking (origin : Stream) {cut : Cut} (h : cut.taken ++ cut.left = back) :
    Behind front back ((between front back).taking origin cut).stream :=
  behind_past h

theorem behind_lineComment (front back : List Char) :
    Behind front back (between front back).lineComment.stream := by
  rw [lineComment, intoText_between]
  exact behind_taking _ (by rw [ahead_between]; exact Cut.whileTrue_append ..)

theorem behind_blockComment (front back : List Char) :
    Behind front back (between front back).blockComment.stream := by
  refine behind_bind (behind_next front back) fun _ front back => ?_
  refine behind_bind (behind_next front back) fun _ front back => ?_
  rw [intoText_between]
  exact behind_taking _ (by rw [ahead_between]; exact Cut.throughStars_append back)

/-- A quoted text starts with the character in front of it. -/
theorem taken_quotedText (first : Char) (rest : List Char) :
    (Cut.quotedText first rest).taken.tail ++ (Cut.quotedText first rest).left = rest := by
  have hwhole := Cut.quotedText_append first rest
  have htaken : (Cut.quotedText first rest).taken =
      first :: (Cut.quotedText first rest).taken.tail := by
    unfold Cut.quotedText
    split <;> rfl
  rw [htaken, List.cons_append] at hwhole
  exact List.tail_eq_of_cons_eq hwhole

theorem behind_quotedText (front back : List Char) :
    Behind front back (between front back).quotedText.stream := by
  refine behind_bind (behind_next front back) fun first front back => ?_
  rw [intoText_between]
  exact behind_taking _ (by rw [ahead_between]; exact taken_quotedText first back)

/-- Where a stream stands in its text, it looks at what is ahead. -/
theorem looked_between (front back : List Char) (other : List Char) :
    (if (between front back).position < 0 then other else (between front back).ahead) = back := by
  rw [if_neg (position_between_nonneg front back), ahead_between]

theorem behind_number (front back : List Char) :
    Behind front back (between front back).number.stream := by
  rw [number, looked_between]
  exact behind_taking _ (Cut.whileTrue_append ..)

theorem behind_word (vocabulary : Vocabulary) (front back : List Char) :
    Behind front back ((between front back).word vocabulary).stream := by
  rw [word, looked_between]
  exact behind_taking _ (Cut.whileTrue_append ..)

/-- An operator is taken as a whole, and what spells none is consumed. -/
theorem behind_operator (front back : List Char) :
    Behind front back (between front back).operator.stream := by
  rcases back with _ | ⟨first, rest⟩
  · rw [operator, next_between_nil]
    exact behind_here front []
  · rw [operator, next_between_cons]
    simp only [Call.bind]
    split
    next cut hcut =>
      rw [if_neg (position_between_nonneg front _), ahead_between] at hcut
      exact behind_taking _ (Cut.operator?_append hcut).1
    next => exact ⟨[first], rest, rfl, rfl⟩

/-! ## Whole tokens -/

/-- A stream goes on where a reading of it has come to. -/
theorem behind_resume {reading : Reading} (h : (between front back).reading.Reaches reading) :
    Behind front back ((between front back).resume reading) := by
  obtain ⟨read, hrest, hplace⟩ := h
  rw [reading_between] at hrest hplace
  obtain rfl : back = read ++ reading.rest := hrest
  refine ⟨read, reading.rest, rfl, ?_⟩
  rw [← resume_between, Location.past_append, ← hplace]

theorem behind_nextToken (vocabulary : Vocabulary) (front back : List Char) :
    Behind front back ((between front back).nextToken vocabulary).stream := by
  rw [nextToken_between]
  exact behind_resume (Reading.reaches_next vocabulary _)

theorem behind_tokens (vocabulary : Vocabulary) (front back : List Char) :
    Behind front back ((between front back).tokens vocabulary).stream := by
  rw [tokens, intoText_between]
  refine behind_resume ?_
  generalize (between front back).reading = reading
  have hmem : ((reading.stepsToFinish vocabulary).map Prod.snd).getLastD reading ∈
      reading :: (reading.stepsToFinish vocabulary).map Prod.snd := List.getLastD_mem_cons
  rcases List.mem_cons.1 hmem with hlast | hlast
  · rw [hlast]
    exact .refl reading
  · obtain ⟨step, hstep, hlast⟩ := List.mem_map.1 hlast
    rw [← hlast]
    exact reading.reaches_steps step ((Reading.takeThrough_prefix _ _).subset hstep)

/-! ## Requests -/

theorem snd_reply (call : Call α) (answered : α → Reply) :
    (reply call answered).2 = call.stream := by
  rw [reply]
  split <;> rfl

/-- **Every request brings a stream behind some of what is ahead**, whatever the reply. -/
theorem behind_answer (vocabulary : Vocabulary) (front back : List Char) (request : Request) :
    Behind front back ((between front back).answer vocabulary request).2 := by
  cases request with
  | peek | atEnd | textSince | tokenSince => exact behind_here front back
  | next => exact snd_reply _ _ ▸ behind_next front back
  | skipGap => exact snd_reply _ _ ▸ behind_skipGap front back
  | nextToken => exact snd_reply _ _ ▸ behind_nextToken vocabulary front back
  | tokens => exact snd_reply _ _ ▸ behind_tokens vocabulary front back
  | lineComment => exact snd_reply _ _ ▸ behind_lineComment front back
  | blockComment => exact snd_reply _ _ ▸ behind_blockComment front back
  | operator => exact snd_reply _ _ ▸ behind_operator front back
  | quotedText => exact snd_reply _ _ ▸ behind_quotedText front back
  | number => exact snd_reply _ _ ▸ behind_number front back
  | word => exact snd_reply _ _ ▸ behind_word vocabulary front back

/-- **So do all requests**, by induction on them. -/
theorem behind_after (vocabulary : Vocabulary) (front back : List Char) (requests : List Request) :
    Behind front back ((between front back).after vocabulary requests) := by
  induction requests generalizing front back with
  | nil => exact behind_here front back
  | cons request rest ih =>
    exact (behind_answer vocabulary front back request).trans fun front back hs => by
      rw [after, List.foldl_cons, hs]
      exact ih front back

theorem after_append (s : Stream) (requests more : List Request) :
    s.after vocabulary (requests ++ more) = (s.after vocabulary requests).after vocabulary more :=
  List.foldl_append

/-- **Where a stream may stand in a text**, and what requests to it do. -/
structure Steady (vocabulary : Vocabulary) (source : List Char) (s : Stream) : Prop where
  text : s.text = source
  within : 0 ≤ s.position ∧ s.position ≤ source.length
  /-- The line and the column are those of the position. -/
  place : s.place = .ofOffset source s.position.toNat
  /-- No requests bring it back. -/
  forward : ∀ requests, s.position ≤ (s.after vocabulary requests).position
  /-- Where no character can be consumed, none is. -/
  unmoved : ∀ fault, (s.answer vocabulary .next).1 = .fault fault →
    (s.answer vocabulary .next).2 = s

theorem steady_between (vocabulary : Vocabulary) (front back : List Char) :
    Steady vocabulary (front ++ back) (between front back) where
  text := rfl
  within := by
    simp only [between, List.length_append]
    omega
  place := (ofOffset_length front back).symm
  forward requests := by
    obtain ⟨read, rest, -, hs⟩ := behind_after vocabulary front back requests
    rw [hs]
    simp only [between, List.length_append]
    omega
  unmoved fault h := by
    rcases back with _ | ⟨c, rest⟩
    · rw [answer, snd_reply, next_between_nil]
    · simp [answer, reply, next_between_cons] at h

/-- **Whatever a fresh stream has been asked for, it stands at the place of its position**, inside
its text, and goes on from there. -/
theorem steady_after (vocabulary : Vocabulary) (text : String) (requests : List Request) :
    Steady vocabulary text.toList ((ofText text).after vocabulary requests) := by
  obtain ⟨read, rest, htext, hs⟩ := behind_after vocabulary [] text.toList requests
  rw [htext]
  exact hs ▸ steady_between vocabulary read rest

/-- A letter spells no operator and is consumed all the same, and any two characters open a
comment. -/
example : (ofText "a+\nb").after .standard [.operator, .blockComment] =
    ⟨"a+\nb".toList, 4, ⟨2, 2⟩⟩ := by cbv

end Stream

end ScriptFrontend
