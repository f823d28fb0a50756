import ScriptFrontend.Proofs.Lexeme.Standing
import ScriptFrontend.Proofs.Lexeme.Steps

/-!
# Proofs/Lexeme/Finish — reading through the end of a text, and on from there

A stream that is asked for all tokens answers as if it had been asked for the next one again and
again, through the first that ends the text, and then the comments had been left out (`Collects`).
That one may be a word; where no word ends a text, it is the end itself, and the stream stays there
whatever it is asked for next (`Rests`).

    calls ++ [final] = front ++ last :: back
                       └ requests for the next token ┘

The calls on a stream (`Calls`) hold all that is to be known: the requests for the next token are
answered along them (`replies_of_calls`), and the request for all tokens is answered with a front of
them (`tokens_of_first`).
-/

namespace ScriptFrontend.Stream

/-- The replies to requests, one after the other. -/
def replies (vocabulary : Vocabulary) (s : Stream) : List Request → List Reply
  | [] => []
  | request :: rest =>
    (s.answer vocabulary request).1 :: replies vocabulary (s.answer vocabulary request).2 rest

/-- Requests for the next token and nothing else. -/
def nextTokens (n : Nat) : List Request := List.replicate n .nextToken

variable {vocabulary : Vocabulary} {s : Stream} {front back : List Char}
  {calls before after : List (Token × Stream)} {final last : Token × Stream}

/-! ## The calls, request by request -/

/-- **Requests for the next token are answered along the calls.** -/
theorem replies_of_calls (h : Calls vocabulary s calls final)
    (hsplit : calls ++ [final] = before ++ last :: after) :
    s.replies vocabulary (nextTokens (before.length + 1)) =
        (before.map Prod.fst ++ [last.1]).map .token ∧
      s.after vocabulary (nextTokens (before.length + 1)) = last.2 := by
  have hone {s t : Stream} {token : Token} (hnext : s.nextToken vocabulary = ⟨.ok token, t⟩) :
      s.answer vocabulary .nextToken = (.token token, t) := by
    rw [answer, hnext]
    rfl
  induction h generalizing before with
  | final _ hnext =>
    rcases before with _ | ⟨call, before⟩
    · obtain ⟨rfl, -⟩ := List.cons.inj hsplit
      simp [nextTokens, replies, Stream.after, hone hnext]
    · simp at hsplit
  | more _ hnext _ ih =>
    rcases before with _ | ⟨call, before⟩
    · obtain ⟨rfl, -⟩ := List.cons.inj hsplit
      simp [nextTokens, replies, Stream.after, hone hnext]
    · obtain ⟨rfl, hrest⟩ := List.cons.inj hsplit
      obtain ⟨hreplies, hafter⟩ := ih hrest
      rw [nextTokens, List.length_cons, List.replicate_succ, ← nextTokens]
      constructor
      · rw [replies, hone hnext, hreplies]
        rfl
      · rw [Stream.after, List.foldl_cons, hone hnext]
        exact hafter

/-- Every call but the final one takes a character at least. -/
theorem length_calls_le (h : Calls vocabulary (between front back) calls final) :
    calls.length ≤ back.length := by
  refine calls_induction (motive := fun _ back calls _ => calls.length ≤ back.length) ?_ ?_ h
  · exact fun _ _ _ => Nat.zero_le _
  · intro front gap first rest calls final _ _ ih
    have hless := Cut.length_left_lt vocabulary first rest
    simp only [List.length_cons, List.length_append] at hless ⊢
    omega

/-- The final call is that of the end, and leaves the stream there. -/
theorem final_eq (h : Calls vocabulary (between front back) calls final) :
    final = (.finish (Location.start.past (front ++ back)), between (front ++ back) []) := by
  refine calls_induction (motive := fun front back _ final =>
    final = (.finish (Location.start.past (front ++ back)), between (front ++ back) [])) ?_ ?_ h
  · exact fun _ _ _ => rfl
  · intro front gap first rest calls final _ _ ih
    rw [ih, List.append_assoc, Cut.taken_append_left, List.append_assoc]

/-- Where no word ends a text, the final call is the first one of the end. -/
theorem ne_finish_of_calls (hvocabulary : ∀ word, vocabulary.kind? word ≠ some .finish)
    (h : Calls vocabulary (between front back) calls final) :
    ∀ call ∈ calls, call.1.kind ≠ .finish := by
  refine calls_induction (motive := fun _ _ calls _ => ∀ call ∈ calls, call.1.kind ≠ .finish)
    ?_ ?_ h
  · simp
  · intro front gap first rest calls final _ hfirst ih
    exact List.forall_mem_cons.2 ⟨(Cut.rule_cut hfirst).ne_finish hvocabulary, ih⟩

/-! ## All tokens at once -/

/-- What is taken through the first member that passes a test. -/
theorem takeThrough_eq {α : Type} (test : α → Bool) {list : List α}
    (h : ∃ a ∈ list, test a = true) :
    ∃ before last after, list = before ++ last :: after ∧ test last = true ∧
      (∀ a ∈ before, test a = false) ∧ Reading.takeThrough test list = before ++ [last] := by
  induction list with
  | nil => simp at h
  | cons a rest ih =>
    by_cases ha : test a = true
    · exact ⟨[], a, rest, rfl, ha, by simp, by simp [Reading.takeThrough, ha]⟩
    · obtain ⟨before, last, after, rfl, hlast, hbefore, htake⟩ := ih (by simpa [ha] using h)
      refine ⟨a :: before, last, after, rfl, hlast, ?_, by simp [Reading.takeThrough, ha, htake]⟩
      exact List.forall_mem_cons.2 ⟨by simpa using ha, hbefore⟩

/-- **All tokens are those of the calls through the first end**, without the comments, and the
stream goes on behind it. -/
theorem tokens_of_first (h : Calls vocabulary (between front back) calls final)
    (htake : Reading.takeThrough (fun call => call.1.kind == .finish) (calls ++ [final]) =
      before ++ [last]) :
    (between front back).tokens vocabulary =
      ⟨.ok (((before ++ [last]).map Prod.fst).filter fun token => !token.kind.isDiscarded),
        last.2⟩ := by
  have hsteps := congrArg (Reading.takeThrough fun call => call.1.kind == .finish)
    (map_steps_resume h)
  rw [← Reading.map_takeThrough
    (fun step : Token × Reading => (step.1, (between front back).resume step.2)), htake] at hsteps
  have hread : ((between front back).reading.stepsToFinish vocabulary).map
      (fun step => (step.1, (between front back).resume step.2)) = before ++ [last] := by
    rw [reading_between]
    exact hsteps
  have htokens := congrArg (List.map Prod.fst) hread
  have hstreams := congrArg (fun list => (list.map Prod.snd).getLast?) hread
  simp only [List.map_map, List.getLast?_map, List.getLast?_append, List.getLast?_singleton,
    Option.some_or, Option.map_some] at htokens hstreams
  obtain ⟨step, hstep, hlast⟩ := Option.map_eq_some_iff.1 hstreams
  rw [tokens, intoText_between]
  simp only [Call.bind, Reading.tokens, List.getLastD_eq_getLast?, List.getLast?_map, hstep,
    Option.map_some, Option.getD_some]
  rw [← htokens]
  exact congrArg _ hlast

/-! ## What a stream answers -/

/-- **All tokens are what the requests for the next one bring**, through the first that ends the
text, without the comments. -/
structure Collects (vocabulary : Vocabulary) (source : List Char) (s : Stream)
    (read : List Token) (last : Token) : Prop where
  /-- The requests for the next token bring `read` and then `last`. -/
  replied : s.replies vocabulary (nextTokens (read.length + 1)) = (read ++ [last]).map .token
  /-- There are no more of them than characters left, and one. -/
  bounded : s.position + read.length ≤ source.length
  first : last.kind = .finish ∧ ∀ token ∈ read, token.kind ≠ .finish
  /-- The request for all tokens brings those that are no comments, and leaves the same stream. -/
  collected : s.answer vocabulary .tokens =
    (.tokens ((read.filter fun token => !token.kind.isDiscarded) ++ [last]),
      s.after vocabulary (nextTokens (read.length + 1)))

/-- **A stream at the end of its text stays there**, and answers with the end every time. -/
structure Rests (vocabulary : Vocabulary) (source : List Char) (s : Stream) (ending : Token) :
    Prop where
  empty : ending = ⟨.finish, "", .ofOffset source source.length⟩
  position : s.position = source.length
  next : s.answer vocabulary .nextToken = (.token ending, s)
  all : s.answer vocabulary .tokens = (.tokens [ending], s)
  /-- Neither request moves it, however often and in whatever order they are made. -/
  unmoved : ∀ requests : List Request,
    (∀ request ∈ requests, request = .nextToken ∨ request = .tokens) →
    s.after vocabulary requests = s

/-- Requests none of which moves a stream leave it where it is. -/
theorem after_eq_self {requests : List Request}
    (h : ∀ request ∈ requests, (s.answer vocabulary request).2 = s) :
    s.after vocabulary requests = s := by
  induction requests with
  | nil => rfl
  | cons request rest ih =>
    obtain ⟨hfirst, hrest⟩ := List.forall_mem_cons.1 h
    rw [Stream.after, List.foldl_cons, hfirst]
    exact ih hrest

theorem collects_between (h : Calls vocabulary (between front back) calls final) :
    ∃ before last after, calls ++ [final] = before ++ last :: after ∧
      last.1.kind = .finish ∧
      Collects vocabulary (front ++ back) (between front back) (before.map Prod.fst) last.1 ∧
      ((between front back).answer vocabulary .tokens).2 = last.2 := by
  have hfinish : final.1.kind = .finish := by
    rw [final_eq h]
    rfl
  obtain ⟨before, last, after, hsplit, hlast, hbefore, htake⟩ :=
    takeThrough_eq (fun call : Token × Stream => call.1.kind == .finish)
      ⟨final, List.mem_append_right calls (List.mem_singleton_self _), beq_iff_eq.2 hfinish⟩
  have hkind : last.1.kind = .finish := beq_iff_eq.1 hlast
  obtain ⟨hreplies, hafter⟩ := replies_of_calls h hsplit
  have htokens : (between front back).answer vocabulary .tokens =
      (.tokens (((before.map Prod.fst).filter fun token => !token.kind.isDiscarded) ++ [last.1]),
        last.2) := by
    rw [answer, tokens_of_first h htake, List.map_append, List.filter_append]
    simp [reply, hkind, Kind.isDiscarded]
  refine ⟨before, last, after, hsplit, hkind, ?_, congrArg Prod.snd htokens⟩
  exact {
    replied := by simpa using hreplies
    bounded := by
      have hcalls := length_calls_le h
      have hlength := congrArg List.length hsplit
      simp only [List.length_append, List.length_cons, List.length_nil] at hlength
      simp only [between, List.length_map, List.length_append]
      omega
    first := ⟨hkind, List.forall_mem_map.2 fun call hmem => by simpa using hbefore call hmem⟩
    collected := by rw [htokens, List.length_map, hafter] }

theorem rests_between (vocabulary : Vocabulary) (front : List Char) :
    Rests vocabulary front (between front []) (.finish (Location.start.past front)) := by
  have hnext : (between front []).nextToken vocabulary =
      ⟨.ok (.finish (Location.start.past (front ++ []))), between (front ++ []) []⟩ :=
    nextToken_gap rfl
  rw [List.append_nil] at hnext
  obtain ⟨before, last, after, hsplit, -, hcollects, -⟩ :=
    collects_between (.final (exhausted_between front []) hnext)
  obtain ⟨rfl, rfl, rfl⟩ : before = [] ∧
      last = (.finish (Location.start.past front), between front []) ∧ after = [] := by
    rcases before with _ | ⟨call, before⟩
    · obtain ⟨rfl, rfl⟩ := List.cons.inj hsplit
      exact ⟨rfl, rfl, rfl⟩
    · simp at hsplit
  have hone : (between front []).answer vocabulary .nextToken =
      (.token (.finish (Location.start.past front)), between front []) := by
    rw [answer, hnext]
    rfl
  have hall : (between front []).answer vocabulary .tokens =
      (.tokens [.finish (Location.start.past front)], between front []) := by
    have hstream : (between front []).after vocabulary (nextTokens 1) = between front [] :=
      congrArg Prod.snd hone
    have hcollected := hcollects.collected
    rw [List.map_nil, List.length_nil, Nat.zero_add, hstream] at hcollected
    exact hcollected
  exact {
    empty := by
      have hplace := ofOffset_length front []
      rw [List.append_nil] at hplace
      rw [hplace, Token.finish]
    position := by simp [between]
    next := hone
    all := hall
    unmoved := fun requests hrequests => after_eq_self fun request hmem => by
      rcases hrequests request hmem with rfl | rfl
      · exact congrArg Prod.snd hone
      · exact congrArg Prod.snd hall }

/-- **All tokens of a text are found by asking for the next one**, through the first that ends the
text.  Whatever a fresh stream has been asked for, the request for all tokens that are left brings
what the requests for the next one bring, without the comments, and there are at most as many of
these as characters left, and one.  Where no word ends a text, the last of them is the end itself,
and from there on it is the answer to every further request.  The tokens of a whole text are what a
fresh stream brings. -/
theorem tokens_through_finish (vocabulary : Vocabulary) (text : String)
    (earlier : List Request) :
    (∃ read last,
      Collects vocabulary text.toList ((ofText text).after vocabulary earlier) read last ∧
      ((∀ word, vocabulary.kind? word ≠ some .finish) →
        Rests vocabulary text.toList
          (((ofText text).after vocabulary earlier).answer vocabulary .tokens).2 last)) ∧
    ((ofText text).answer vocabulary .tokens).1 =
      .tokens (ScriptFrontend.tokens vocabulary text) := by
  refine ⟨?_, rfl⟩
  have hstands : Behind [] text.toList ((ofText text).after vocabulary earlier) :=
    behind_after vocabulary [] text.toList earlier
  obtain ⟨front, back, htext, hs⟩ := hstands
  obtain ⟨calls, final, hcalls⟩ := exists_calls vocabulary ([] ++ front) back
  obtain ⟨before, last, after, hsplit, hkind, hcollects, hstream⟩ := collects_between hcalls
  rw [hs, htext]
  refine ⟨_, _, hcollects, fun hvocabulary => ?_⟩
  have hlast : last = final := by
    have hmem : last ∈ calls ++ [final] := by simp [hsplit]
    refine List.mem_singleton.1 ((List.mem_append.1 hmem).resolve_left fun hmem => ?_)
    exact ne_finish_of_calls hvocabulary hcalls last hmem hkind
  rw [hstream, hlast, final_eq hcalls]
  exact rests_between vocabulary _

end ScriptFrontend.Stream
