import ScriptFrontend.Parse.Cursor
import ScriptFrontend.Proofs.Parse.Prefix
import ScriptFrontend.Proofs.Parse.Tidy

/-!
# Proofs/Parse/Cursor — where a cursor can stand

Whatever a cursor is asked for, and whatever it was asked for before, it stays in front of the end
of its list and never goes back.  `Moves` says what one request does to the position: looking leaves
it alone, taking moves it by one token or not at all, reading moves it on, and a refusal leaves it
at the offending token.

The parsers behind the requests are tidy, so a request leaves a back of what was ahead
(`moves_readAhead`).  That is asked of the cursor alone and not of the token in front of it, so it
is kept along every list of requests (`moves_answer`).
-/

namespace ScriptFrontend

open Grammar

/-! ## Pieces

A tidy operand makes a tidy chain, and the other pieces are tidy as they are. -/

namespace Parser

variable {p : Parser Node}

theorem read_behindNext (stop : Token) (form : StatementForm) (tokens : List Token) :
    (behindNext stop form).read tokens =
      (production (inner nestingLimit) (tokens.headD stop) form).read tokens.tail := by
  simp [read, behindNext]

/-- Behind its operands a chain ends, or an operand is looked for at the end of the list. -/
theorem read_joinedBy (operators : List Kind) (p : Parser Node) (tokens : List Token) :
    (joinedBy operators p).read tokens = (joinedWhile operators.contains p).read tokens ∨
      operators.contains .finish = true ∧ (joinedBy operators p).read tokens = p.read [] := by
  simp only [read, joinedBy]
  rcases (joinedWhile operators.contains p).run tokens with
    ⟨value, _ | ⟨token, rest⟩, fewer⟩ | failure
  · by_cases hfinish : operators.contains .finish = true
    · exact .inr ⟨hfinish, by simp only [if_pos hfinish, Outcome.reply_widen]⟩
    · exact .inl (by simp only [if_neg hfinish])
  · exact .inl rfl
  · exact .inl rfl

theorem Tidy.behindNext (stop : Token) (form : StatementForm) :
    Tidy (Parser.behindNext stop form) where
  suffix {tokens answer rest} hread := by
    rw [read_behindNext] at hread
    exact ((Tidy.production (tidy_inner _) _ form).suffix hread).trans (List.tail_suffix tokens)
  atToken {tokens rest} hread := by
    rw [read_behindNext] at hread
    exact (Tidy.production (tidy_inner _) _ form).atToken hread

theorem Tidy.joinedBy (h : Tidy p) (operators : List Kind) :
    Tidy (Parser.joinedBy operators p) where
  suffix {tokens answer rest} hread := by
    rcases read_joinedBy operators p tokens with heq | ⟨-, heq⟩ <;> rw [heq] at hread
    · exact (h.foldWhile h).suffix hread
    · exact (h.suffix hread).trans List.nil_suffix
  atToken {tokens rest} hread := by
    rcases read_joinedBy operators p tokens with heq | ⟨-, heq⟩ <;> rw [heq] at hread
    · exact (h.foldWhile h).atToken hread
    · exact h.atToken hread

/-- **A level is a chain with its own operators.** -/
theorem joinedBy_kinds (level : Level) (p : Parser Node) :
    joinedBy level.kinds p = chain level p := by
  refine ext_read fun tokens => ?_
  rw [chain, ← level.contains_kinds]
  rcases read_joinedBy level.kinds p tokens with heq | ⟨hfinish, -⟩
  · exact heq
  · cases level <;> cases hfinish

end Parser

namespace Cursor.Piece

/-- **Every piece is read by a tidy parser**, by induction on the operands of chains. -/
theorem tidy (piece : Piece) (stop : Token) : (piece.parser stop).Tidy := by
  induction piece with
  | statement => exact Parser.tidy_statement _
  | form form => exact .behindNext stop form
  | binary operators operand ih => exact ih.joinedBy operators
  | unary => exact Parser.congruence_tidy.unary _
  | primary => exact Parser.congruence_tidy.primary _

variable (stop : Token)

theorem parser_factor : factor.parser stop = Parser.factor nestingLimit :=
  Parser.joinedBy_kinds .factor _

theorem parser_term : term.parser stop = Parser.term nestingLimit := by
  rw [term, parser, parser_factor, Parser.joinedBy_kinds]
  rfl

theorem parser_comparison : comparison.parser stop = Parser.comparison nestingLimit := by
  rw [comparison, parser, parser_term, Parser.joinedBy_kinds]
  rfl

/-- **The four levels together read expressions.** -/
theorem parser_expression : expression.parser stop = Parser.expression nestingLimit := by
  rw [expression, equality, parser, parser_comparison, Parser.joinedBy_kinds]
  rfl

end Cursor.Piece

namespace Cursor

/-! ## Requests and replies -/

/-- Whether a request only looks at the next token. -/
def Request.looks : Request → Bool
  | current | atEnd | check _ => true
  | _ => false

/-- The kinds of token that a request takes, if it takes a token. -/
def Request.taken? : Request → Option (List Kind)
  | accept kinds => some kinds
  | consume kind _ => some [kind]
  | _ => none

/-- Whether a request reads what is ahead with a parser. -/
def Request.reads : Request → Bool
  | current | atEnd | check _ | advance | accept _ | consume .. => false
  | _ => true

/-- Whether a reply holds something that was read. -/
def Reply.isRead : Reply → Bool
  | node _ | nodes _ => true
  | _ => false

/-- The cursor after some requests. -/
def after (c : Cursor) (requests : List Request) : Cursor :=
  requests.foldl (fun c request => (c.answer request).2) c

theorem after_append (c : Cursor) (requests more : List Request) :
    c.after (requests ++ more) = (c.after requests).after more := List.foldl_append

/-- **What a request does** to a cursor in a list. -/
structure Moves (tokens : List Token) (c : Cursor) (request : Request) (reply : Reply)
    (next : Cursor) : Prop where
  list : next.tokens = tokens
  forward : c.position ≤ next.position
  within : next.position ≤ tokens.length
  /-- No token that ends the text is passed. -/
  endFree : EndFree (tokens.take next.position)
  looking : request.looks = true → next = c
  advancing : request = .advance →
    next.position = if c.current.kind = .finish then c.position else c.position + 1
  taking : ∀ kinds, request.taken? = some kinds →
    next.position =
      if c.current.kind ∈ kinds ∧ c.current.kind ≠ .finish then c.position + 1 else c.position
  reading : reply.isRead = true → request ≠ .program → c.position < next.position
  /-- The index of the offending token is the position, but for a second default, where the
  position is behind it. -/
  refusal : ∀ rejection, reply = .refused rejection → rejection.expected ≠ .shallower →
    ∃ i, (tokens ++ [impliedStop tokens])[i]? = some rejection.token ∧
      next.position = if rejection.expected = .oneDefault then i + 1 else i

/-! ## Positions -/

variable {c : Cursor}

/-- A cursor in front of the end of its list. -/
def Inside (c : Cursor) : Prop := c.position ≤ c.list.body.length

theorem length_ahead (c : Cursor) : c.ahead.length = c.list.body.length - c.position :=
  List.length_drop

/-- What is ahead is a back of the body. -/
theorem ahead_suffix (c : Cursor) : c.ahead <:+ c.list.body := List.drop_suffix _ _

theorem length_body_le (c : Cursor) : c.list.body.length ≤ c.tokens.length :=
  (List.takeWhile_sublist _).length_le

/-- In front of the end of a list no token ends the text. -/
theorem endFree_take {n : Nat} (h : n ≤ c.list.body.length) : EndFree (c.tokens.take n) := by
  obtain ⟨rest, hrest⟩ := List.takeWhile_prefix (l := c.tokens) (·.kind != .finish)
  have htake : c.tokens.take n = c.list.body.take n := by
    conv_lhs => rw [← hrest]
    exact List.take_append_of_le_length h
  rw [htake]
  exact fun token hmem => endFree_body c.tokens token (List.mem_of_mem_take hmem)

/-- The next token ends the text exactly where none is ahead. -/
theorem current_kind_iff (c : Cursor) : c.current.kind = .finish ↔ c.atEnd = true := by
  rw [current, atEnd]
  rcases hahead : c.ahead with _ | ⟨token, rest⟩
  · have hstop : c.list.stop.kind = .finish := by
      rcases eq_body_or_stop c.tokens with ⟨-, hstop⟩ | ⟨hkind, -⟩
      · exact congrArg Token.kind hstop
      · exact hkind
    simpa using hstop
  · have hmem : token ∈ c.list.body := (ahead_suffix c).subset (by simp [hahead])
    simpa using endFree_body c.tokens token hmem

/-- A cursor that moves on by one token stays in front of the end. -/
theorem position_advanced (c : Cursor) :
    c.advanced.position = if c.current.kind = .finish then c.position else c.position + 1 := by
  by_cases hend : c.atEnd = true
  · rw [advanced, if_pos hend, if_pos ((current_kind_iff c).2 hend)]
  · rw [advanced, if_neg hend, if_neg fun hkind => hend ((current_kind_iff c).1 hkind)]

@[simp] theorem tokens_advanced (c : Cursor) : c.advanced.tokens = c.tokens := by
  rw [advanced]
  split <;> rfl

theorem inside_advanced (h : c.Inside) : c.advanced.Inside := by
  rw [advanced]
  split
  · exact h
  next hend =>
    have hlength := length_ahead c
    have hpos : c.ahead.length ≠ 0 := fun hzero => hend (by simpa [atEnd] using hzero)
    change c.position + 1 ≤ c.list.body.length
    omega

/-- Where the offending token of a cursor that only looks stands. -/
theorem getElem?_current (h : c.Inside) :
    (c.tokens ++ [impliedStop c.tokens])[c.position]? = some c.current := by
  have hoffending := getElem?_offending .statement (ahead_suffix c)
  have hlength := length_ahead c
  have hindex : (TokenList.of c.tokens).body.length - c.ahead.length = c.position := by
    change c.list.body.length - c.ahead.length = c.position
    unfold Inside at h
    omega
  rwa [hindex] at hoffending

/-! ## One request -/

/-- Where nothing is refused and nothing read, only the position counts. -/
theorem Moves.of_advanced (h : c.Inside) {request : Request} {reply : Reply} {next : Cursor}
    (hnext : next = c ∨ next = c.advanced) (hlooking : request.looks = true → next = c)
    (hadvancing : request = .advance → next = c.advanced)
    (htaking : ∀ kinds, request.taken? = some kinds →
      next = if c.current.kind ∈ kinds then c.advanced else c)
    (hreply : reply.isRead = false)
    (hrefused : ∀ rejection, reply = .refused rejection →
      rejection.token = c.current ∧ rejection.expected ≠ .oneDefault ∧ next = c) :
    Moves c.tokens c request reply next where
  list := by rcases hnext with rfl | rfl <;> simp
  forward := by
    rcases hnext with rfl | rfl
    · exact Nat.le_refl _
    · rw [position_advanced]
      split <;> omega
  within := by
    rcases hnext with rfl | rfl
    · exact Nat.le_trans h (length_body_le _)
    · exact Nat.le_trans (inside_advanced h) (by simpa using length_body_le c.advanced)
  endFree := by
    rcases hnext with rfl | rfl
    · exact endFree_take h
    · simpa using endFree_take (inside_advanced h)
  looking := hlooking
  advancing hadvance := by rw [hadvancing hadvance, position_advanced]
  taking kinds hkinds := by
    rw [htaking kinds hkinds]
    by_cases hmem : c.current.kind ∈ kinds
    · rw [if_pos hmem, position_advanced]
      by_cases hfinish : c.current.kind = .finish
      · rw [if_pos hfinish, if_neg fun hboth => hboth.2 hfinish]
      · rw [if_neg hfinish, if_pos ⟨hmem, hfinish⟩]
    · rw [if_neg hmem, if_neg fun hboth => hmem hboth.1]
  reading hread := by simp [hreply] at hread
  refusal rejection hreply _ := by
    obtain ⟨htoken, hexpected, rfl⟩ := hrefused rejection hreply
    exact ⟨_, htoken ▸ getElem?_current h, by rw [if_neg hexpected]⟩

/-- What is left after a reading is where the cursor stands. -/
theorem position_leaving {rest : List Token} (h : c.Inside) (hrest : rest <:+ c.ahead) :
    (c.leaving rest).position ≤ c.list.body.length ∧
      (c.leaving rest).position = c.position + (c.ahead.length - rest.length) := by
  have hlength := length_ahead c
  have hle := hrest.length_le
  unfold Inside at h
  simp only [leaving]
  omega

/-- A request that reads neither looks nor takes. -/
theorem Request.of_reads {request : Request} (h : request.reads = true) :
    request.looks = false ∧ request ≠ .advance ∧ request.taken? = none := by
  cases request <;> simp_all [reads, looks, taken?]

/-- Where a reading leaves a back of what was ahead, the reply and the position count. -/
theorem Moves.of_leaving (h : c.Inside) {request : Request} {reply : Reply} {rest : List Token}
    (hreads : request.reads = true) (hrest : rest <:+ c.ahead)
    (hreading : reply.isRead = true → request ≠ .program → rest.length < c.ahead.length)
    (hrefusal : ∀ rejection, reply = .refused rejection →
      ∃ i, (c.tokens ++ [impliedStop c.tokens])[i]? = some rejection.token ∧
        (c.leaving rest).position = if rejection.expected = .oneDefault then i + 1 else i) :
    Moves c.tokens c request reply (c.leaving rest) := by
  obtain ⟨hlooks, hadvance, htaken⟩ := Request.of_reads hreads
  obtain ⟨hwithin, hposition⟩ := position_leaving h hrest
  exact {
    list := rfl
    forward := by omega
    within := Nat.le_trans hwithin (length_body_le c)
    endFree := endFree_take hwithin
    looking := by simp [hlooks]
    advancing := fun hrequest => absurd hrequest hadvance
    taking := by simp [htaken]
    reading := fun hread hprogram => by
      have hshorter := hreading hread hprogram
      omega
    refusal := fun rejection hreply _ => hrefusal rejection hreply }

/-- **A refused reading leaves the cursor at the offending token.** -/
theorem moves_refuse (h : c.Inside) {request : Request} {failure : Failure}
    (hreads : request.reads = true) (hsuffix : failure.remaining <:+ c.ahead)
    (htoken : failure.expected = .oneDefault → failure.remaining ≠ []) :
    Moves c.tokens c request (c.refuse failure).1 (c.refuse failure).2 := by
  have hleft : leftBy failure <:+ c.ahead := by
    unfold leftBy
    split
    · exact (List.tail_suffix _).trans hsuffix
    · exact hsuffix
  refine .of_leaving h hreads hleft (by simp [refuse, Reply.isRead]) fun rejection hrejection => ?_
  obtain rfl := Reply.refused.inj hrejection
  refine ⟨_, getElem?_offending failure.expected (hsuffix.trans (ahead_suffix c)), ?_⟩
  change c.list.body.length - (leftBy failure).length =
    if failure.expected = .oneDefault then c.list.body.length - failure.remaining.length + 1
    else c.list.body.length - failure.remaining.length
  have hle := (hsuffix.trans (ahead_suffix c)).length_le
  by_cases hdefault : failure.expected = .oneDefault
  · rw [leftBy, if_pos hdefault, if_pos hdefault, List.length_tail]
    have hpos := List.length_pos_iff.2 (htoken hdefault)
    omega
  · rw [leftBy, if_neg hdefault, if_neg hdefault]

/-- **What a tidy parser reads moves the cursor on.** -/
theorem moves_readAhead {α : Type} (h : c.Inside) {request : Request} {p : Parser α}
    (hreads : request.reads = true) (hp : p.Tidy) (reply : α → Reply)
    (hreply : ∀ a, (reply a).isRead = true) :
    Moves c.tokens c request (c.readAhead p reply).1 (c.readAhead p reply).2 := by
  unfold readAhead
  rcases hrun : p.run c.ahead with ⟨a, rest, fewer⟩ | failure
  · have hread : p.read c.ahead = (.ok a, rest) := by rw [Parser.read, hrun]; rfl
    refine .of_leaving h hreads (hp.suffix hread) (fun _ _ => fewer) fun rejection hrejection => ?_
    have hread := hreply a
    rw [show reply a = .refused rejection from hrejection] at hread
    simp [Reply.isRead] at hread
  · have hread : p.read c.ahead = (.error failure.expected, failure.remaining) := by
      rw [Parser.read, hrun]
      rfl
    exact moves_refuse h hreads (hp.suffix hread) fun hdefault => hp.atToken (hdefault ▸ hread)

/-- What is left of a program is at its end, or in front of the offending token. -/
theorem moves_program (h : c.Inside) :
    Moves c.tokens c .program (c.answer .program).1 (c.answer .program).2 := by
  simp only [answer]
  rcases hread : Parser.statements (.statement nestingLimit) c.ahead with failure | body
  · obtain ⟨hsuffix, htoken⟩ := Parser.tidy_statements (Parser.tidy_statement nestingLimit) _ hread
    exact moves_refuse h rfl hsuffix htoken
  · exact .of_leaving h rfl (List.nil_suffix) (fun _ hne => absurd rfl hne) (by simp)

/-- **A request moves a cursor as it should**, whatever is next. -/
theorem moves_answer (h : c.Inside) (request : Request) :
    Moves c.tokens c request (c.answer request).1 (c.answer request).2 := by
  cases request with
  | current | atEnd | check =>
    exact .of_advanced h (.inl rfl) (fun _ => rfl) (by simp) (by simp [Request.taken?]) rfl
      (by simp [answer])
  | advance =>
    exact .of_advanced h (.inr rfl) (by simp [Request.looks]) (fun _ => rfl)
      (by simp [Request.taken?]) rfl (by simp [answer])
  | accept kinds =>
    simp only [answer]
    split
    next hcheck =>
      have hmem : c.current.kind ∈ kinds := by simpa [check] using hcheck
      exact .of_advanced h (.inr rfl) (by simp [Request.looks]) (by simp)
        (by simp [Request.taken?, hmem]) rfl (by simp)
    next hcheck =>
      have hmem : c.current.kind ∉ kinds := by simpa [check] using hcheck
      exact .of_advanced h (.inl rfl) (fun _ => rfl) (by simp) (by simp [Request.taken?, hmem]) rfl
        (by simp)
  | consume kind expected =>
    simp only [answer]
    split
    next hkind =>
      exact .of_advanced h (.inr rfl) (by simp [Request.looks]) (by simp)
        (by simp [Request.taken?, hkind]) rfl (by simp)
    next hkind =>
      exact .of_advanced h (.inl rfl) (fun _ => rfl) (by simp) (by simp [Request.taken?, hkind]) rfl
        (by simp)
  | program => exact moves_program h
  | block construct =>
    exact moves_readAhead h rfl ((Parser.tidy_inner nestingLimit).block construct) _ fun _ => rfl
  | piece piece => exact moves_readAhead h rfl (piece.tidy _) _ fun _ => rfl

/-! ## Many requests -/

/-- A position with no end in front of it is in front of the end. -/
theorem le_length_body {tokens : List Token} {n : Nat} (hle : n ≤ tokens.length)
    (hfree : EndFree (tokens.take n)) : n ≤ (TokenList.of tokens).body.length := by
  have hbody := body_append hfree (tokens.drop n)
  rw [List.take_append_drop] at hbody
  rw [hbody, List.length_append, List.length_take, Nat.min_eq_left hle]
  exact Nat.le_add_right _ _

/-- A request leaves the cursor in front of the end of its list. -/
theorem inside_answer (h : c.Inside) (request : Request) : (c.answer request).2.Inside := by
  have hmoves := moves_answer h request
  have hle := le_length_body hmoves.within hmoves.endFree
  rwa [← hmoves.list] at hle

/-- **No requests bring a cursor behind the end of its list**, by induction on the requests. -/
theorem inside_after (h : c.Inside) (requests : List Request) :
    (c.after requests).Inside ∧ (c.after requests).tokens = c.tokens ∧
      c.position ≤ (c.after requests).position := by
  induction requests generalizing c with
  | nil => exact ⟨h, rfl, Nat.le_refl _⟩
  | cons request rest ih =>
    have hmoves := moves_answer h request
    obtain ⟨hinside, htokens, hforward⟩ := ih (inside_answer h request)
    exact ⟨hinside, htokens.trans hmoves.list, Nat.le_trans hmoves.forward hforward⟩

/-- **Where a cursor can stand.**  After any requests to a cursor at the front of a list, any other
request moves it as it should; and no requests that follow bring it back. -/
theorem moves_after (tokens : List Token) (requests : List Request) :
    (∀ request, Moves tokens (after ⟨tokens, 0⟩ requests) request
      ((after ⟨tokens, 0⟩ requests).answer request).1
      ((after ⟨tokens, 0⟩ requests).answer request).2) ∧
    ∀ more, (after ⟨tokens, 0⟩ requests).position ≤
      (after ⟨tokens, 0⟩ (requests ++ more)).position := by
  have hstart : (⟨tokens, 0⟩ : Cursor).Inside := Nat.zero_le _
  obtain ⟨hinside, htokens, -⟩ := inside_after hstart requests
  refine ⟨fun request => ?_, fun more => ?_⟩
  · have hmoves := moves_answer hinside request
    rwa [htokens] at hmoves
  · rw [after_append]
    exact (inside_after hinside more).2.2

end Cursor

end ScriptFrontend
