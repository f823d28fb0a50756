import ScriptFrontend.Proofs.Grammar.Basic
import ScriptFrontend.Proofs.Parse.Local

/-!
# Proofs/Parse/Reads — parsers that read the words of a language

`Reads p room L goesOn` ties a parser to a language, a relation between lists of tokens and what they
are worth:

* what the parser reads is a word (`sound`);
* a word is read if nothing behind it makes the parser go on (`complete`), unless there is too
  little room;
* what the parser has consumed when it fails can be completed to a word (`viable`).

Each way of putting parsers together keeps the tie (`Reads.bind`, `Reads.foldUntil`, …), so the tie
of a production is found by following its text.  **One token decides** shows up as side conditions
on first tokens: of the two branches of `ifNext`, of an item against the closing token, and of what
follows a parser that may go on.
-/

namespace ScriptFrontend

open Grammar

/-- Lists of tokens, and what each of them is worth. -/
abbrev Language (α : Type) := List Token → α → Prop

namespace Language

variable {α β : Type}

/-- One token of a kind. -/
def token (kind : Kind) : Language Token := fun word t => word = [t] ∧ t.kind = kind

/-- A word of one language and then a word of another one. -/
def bind (L : Language α) (M : α → Language β) : Language β := fun word b =>
  ∃ front a back, L front a ∧ M a back b ∧ word = front ++ back

/-- A token of a kind and then a word of a language. -/
def behind (kind : Kind) (M : Token → Language β) : Language β := fun word b =>
  ∃ (t : Token) (rest : List Token), t.kind = kind ∧ M t rest b ∧ word = t :: rest

/-- A word of a language and then a token of a kind. -/
def closed (close : Kind) (L : Language α) : Language α := fun word a =>
  ∃ (tokens : List Token) (closing : Token),
    L tokens a ∧ closing.kind = close ∧ word = tokens ++ [closing]

/-- The words of a language, with a function applied to their worth. -/
def map (f : α → β) (L : Language α) : Language β := fun word b => ∃ a, L word a ∧ f a = b

/-- The words of two languages. -/
def either (L M : Language α) : Language α := fun word a => L word a ∨ M word a

/-- A word, and perhaps another one behind a token of a kind. -/
def thenIf (L : Language α) (kind : Kind) (M : Language β) : Language (α × Option β) :=
  fun word x =>
    L word x.1 ∧ x.2 = none ∨
    ∃ (front : List Token) (t : Token) (back : List Token) (b : β),
      L front x.1 ∧ t.kind = kind ∧ M back b ∧ x.2 = some b ∧ word = front ++ t :: back

/-- Words joined by tokens that pass a test, their worths combined from left to right. -/
inductive Joined (L : Language α) (test : Kind → Bool) (M : Language β)
    (combine : α → Token → β → α) : List Token → α → Prop where
  | first {word : List Token} {a : α} : L word a → Joined L test M combine word a
  | more {front back : List Token} {t : Token} {a : α} {b : β} :
    Joined L test M combine front a → test t.kind = true → M back b →
    Joined L test M combine (front ++ t :: back) (combine a t b)

/-- Words one after the other, each changing a value, up to and with a token of the closing kind. -/
inductive Until (close : Kind) (L : α → Language α) : α → List Token → α → Prop where
  | close {t : Token} {a : α} : t.kind = close → Until close L a [t] a
  | step {front back : List Token} {a b c : α} :
    L a front b → Until close L b back c → Until close L a (front ++ back) c

/-- All tokens up to and with the first one of a kind. -/
def through (close : Kind) : Language Unit := fun word _ =>
  ∃ (skipped : List Token) (t : Token),
    (∀ token ∈ skipped, token.kind ≠ close) ∧ t.kind = close ∧ word = skipped ++ [t]

/-- The beginnings of words, completed without the token that ends a text. -/
def Viable (L : Language α) (front : List Token) : Prop :=
  ∃ back a, L (front ++ back) a ∧ EndFree back

end Language

/-- Whether nothing in front of the given tokens makes a parser go on. -/
def Stops (goesOn : Kind → Prop) (rest : List Token) : Prop :=
  ∀ token ∈ rest.head?, ¬ goesOn token.kind

/-- The kinds with which a parser goes on that never does. -/
def nothing : Kind → Prop := fun _ => False

@[simp] theorem stops_nothing (rest : List Token) : Stops nothing rest := fun _ _ => id

@[simp] theorem stops_nil (goesOn : Kind → Prop) : Stops goesOn [] := fun _ h => by simp at h

theorem Stops.mono {goesOn other : Kind → Prop} {rest : List Token} (h : Stops other rest)
    (himp : ∀ kind, goesOn kind → other kind) : Stops goesOn rest :=
  fun token hmem hon => h token hmem (himp _ hon)

theorem StartsWith.stops {goesOn : Kind → Prop} {tokens : List Token}
    (h : StartsWith (¬ goesOn ·) tokens) (rest : List Token) : Stops goesOn (tokens ++ rest) := by
  obtain ⟨head, tail, rfl, hnot⟩ := h
  intro token hmem
  obtain rfl : head = token := by simpa using hmem
  exact hnot

namespace Parser

variable {α β σ : Type}

/-- A parser answers with a value and leaves the given tokens, unless there is too little room. -/
def Gives (p : Parser α) (tokens : List Token) (a : α) (rest : List Token) : Prop :=
  p.read tokens = (.ok a, rest) ∨ ∃ left, p.read tokens = (.error .shallower, left)

section Gives

variable {p : Parser α} {q : Parser β} {tokens mid rest : List Token} {a : α} {b : β} {kind : Kind}

theorem Gives.map (h : p.Gives tokens a rest) (f : α → β) : (p.map f).Gives tokens (f a) rest := by
  rcases h with ha | ⟨left, ha⟩
  · exact .inl (read_map_eq_ok_iff.2 ⟨a, ha, rfl⟩)
  · exact .inr ⟨left, read_map_eq_error_iff.2 ha⟩

theorem Gives.bind {next : α → Parser β} (h : p.Gives tokens a mid)
    (h' : (next a).Gives mid b rest) : (p >>= next).Gives tokens b rest := by
  rcases h with ha | ⟨left, ha⟩
  · rcases h' with hb | ⟨left, hb⟩
    · exact .inl (read_bind_eq_ok_iff.2 ⟨a, mid, ha, hb⟩)
    · exact .inr ⟨left, read_bind_eq_error_iff.2 (.inr ⟨a, mid, ha, hb⟩)⟩
  · exact .inr ⟨left, read_bind_eq_error_iff.2 (.inl ha)⟩

theorem Gives.thenIf_none (h : p.Gives tokens a rest)
    (hkind : ∀ token ∈ rest.head?, token.kind ≠ kind) :
    (p.thenIf kind q).Gives tokens (a, none) rest := by
  rcases h with ha | ⟨left, ha⟩
  · exact .inl (read_thenIf_eq_ok_iff.2 (.inl ⟨a, ha, hkind, rfl⟩))
  · exact .inr ⟨left, read_thenIf_eq_error_iff.2 (.inl ha)⟩

theorem Gives.thenIf_some {token : Token} (h : p.Gives tokens a (token :: mid))
    (hkind : token.kind = kind) (h' : q.Gives mid b rest) :
    (p.thenIf kind q).Gives tokens (a, some b) rest := by
  rcases h with ha | ⟨left, ha⟩
  · rcases h' with hb | ⟨left, hb⟩
    · exact .inl (read_thenIf_eq_ok_iff.2 (.inr ⟨a, token, mid, b, ha, hkind, hb, rfl⟩))
    · exact .inr ⟨left, read_thenIf_eq_error_iff.2 (.inr ⟨a, token, mid, ha, hkind, hb⟩)⟩
  · exact .inr ⟨left, read_thenIf_eq_error_iff.2 (.inl ha)⟩

end Gives

/-- **A parser reads the words of a language**, and goes on behind a word only with some kinds. -/
structure Reads (p : Parser α) (room : Nat) (L : Language α) (goesOn : Kind → Prop) : Prop
    extends Local p room where
  word : L.Viable []
  sound : ∀ {tokens a rest}, p.read tokens = (.ok a, rest) → ∃ word, L word a ∧ tokens = word ++ rest
  complete : ∀ {word a rest}, L word a → Stops goesOn rest → p.Gives (word ++ rest) a rest
  viable : ∀ {tokens e rest}, p.read tokens = (.error e, rest) → e ≠ .shallower →
    ∃ front, L.Viable front ∧ tokens = front ++ rest

variable {p : Parser α} {q : Parser β} {L : Language α} {M : Language β} {A B : Kind → Prop}
  {room : Nat}

/-! ## Single parsers -/

/-- Where there is no room, any language with a word is read. -/
theorem reads_shallower (h : L.Viable []) : Reads (fail .shallower : Parser α) 0 L A where
  toLocal := local_fail (.inr rfl)
  word := h
  sound h := by simp at h
  complete _ _ := .inr ⟨_, rfl⟩
  viable h hne := absurd (by simpa using congrArg Prod.fst h.symm) hne

/-- Where a token is expected, neither the text's end nor the lack of room is. -/
theorem reads_take (kind : Kind) (e : Expectation) (h : e ≠ .shallower ∧ kind ≠ .finish) :
    Reads (take kind e) room (.token kind) nothing where
  toLocal := local_take kind h.1
  word := ⟨[⟨kind, "", .start⟩], _, ⟨rfl, rfl⟩, by simp [h.2]⟩
  sound {tokens a rest} hread := by
    obtain ⟨rfl, hkind⟩ := read_take_eq_ok_iff.1 hread
    exact ⟨[a], ⟨rfl, hkind⟩, rfl⟩
  complete {word a rest} hword _ := by
    obtain ⟨rfl, hkind⟩ := hword
    exact .inl (read_take_eq_ok_iff.2 ⟨rfl, hkind⟩)
  viable {tokens e rest} hread _ := by
    obtain ⟨-, rfl, -⟩ := read_take_eq_error_iff.1 hread
    exact ⟨[], ⟨[⟨kind, "", .start⟩], _, ⟨rfl, rfl⟩, by simp [h.2]⟩, rfl⟩

/-! ## Consequence -/

theorem Reads.congr {M : Language α} (h : Reads p room L A) (heq : ∀ word a, L word a ↔ M word a) :
    Reads p room M A := by
  obtain rfl : L = M := funext fun word => funext fun a => propext (heq word a)
  exact h

theorem Reads.mono (h : Reads p room L A) (himp : ∀ kind, A kind → B kind) : Reads p room L B where
  toLocal := h.toLocal
  word := h.word
  sound := h.sound
  complete hword hstop := h.complete hword (hstop.mono himp)
  viable := h.viable

/-! ## One parser after the other -/

theorem Reads.map (h : Reads p room L A) (f : α → β) : Reads (p.map f) room (L.map f) A where
  toLocal := h.toLocal.map f
  word := by
    obtain ⟨word, a, hword, hfree⟩ := h.word
    exact ⟨word, f a, ⟨a, hword, rfl⟩, hfree⟩
  sound {tokens b rest} hread := by
    obtain ⟨a, hp, rfl⟩ := read_map_eq_ok_iff.1 hread
    obtain ⟨word, hword, rfl⟩ := h.sound hp
    exact ⟨word, ⟨a, hword, rfl⟩, rfl⟩
  complete {word b rest} hword hstop := by
    obtain ⟨a, hword, rfl⟩ := hword
    exact (h.complete hword hstop).map f
  viable {tokens e rest} hread hne := by
    obtain ⟨front, ⟨back, a, hword, hfree⟩, rfl⟩ := h.viable (read_map_eq_error_iff.1 hread) hne
    exact ⟨front, ⟨back, f a, ⟨a, hword, rfl⟩, hfree⟩, rfl⟩

/-- A parser that may go on, and another one that starts with nothing it goes on with. -/
theorem Reads.bindOpen {next : α → Parser β} {M : α → Language β} (hp : Reads p room L A)
    (hq : ∀ word a, L word a → Reads (next a) room (M a) B)
    (hstop : ∀ a word b, M a word b → ∀ rest, Stops A (word ++ rest)) :
    Reads (p >>= next) room (L.bind M) B where
  toLocal := hp.toLocal.bind fun _ a _ h => by
    obtain ⟨front, hfront, -⟩ := hp.sound h
    exact (hq front a hfront).toLocal
  word := by
    obtain ⟨front, a, hfront, hfree⟩ := hp.word
    obtain ⟨back, b, hback, hfree'⟩ := (hq front a hfront).word
    exact ⟨front ++ back, b, ⟨front, a, back, hfront, hback, rfl⟩, by simp [hfree, hfree']⟩
  sound {tokens b rest} hread := by
    obtain ⟨a, mid, ha, hb⟩ := read_bind_eq_ok_iff.1 hread
    obtain ⟨front, hfront, rfl⟩ := hp.sound ha
    obtain ⟨back, hback, rfl⟩ := (hq front a hfront).sound hb
    exact ⟨_, ⟨front, a, back, hfront, hback, rfl⟩, (List.append_assoc ..).symm⟩
  complete {word b rest} hword hrest := by
    obtain ⟨front, a, back, hfront, hback, rfl⟩ := hword
    rw [List.append_assoc]
    exact (hp.complete hfront (hstop a back b hback rest)).bind
      ((hq front a hfront).complete hback hrest)
  viable {tokens e rest} hread hne := by
    rcases read_bind_eq_error_iff.1 hread with ha | ⟨a, mid, ha, hb⟩
    · obtain ⟨front, ⟨middle, a, hword, hfree⟩, rfl⟩ := hp.viable ha hne
      obtain ⟨back, b, hback, hfree'⟩ := (hq _ a hword).word
      exact ⟨front, ⟨middle ++ back, b, ⟨front ++ middle, a, back, hword, hback, by simp⟩,
        by simp [hfree, hfree']⟩, rfl⟩
    · obtain ⟨front, hfront, rfl⟩ := hp.sound ha
      obtain ⟨middle, ⟨back, b, hword, hfree⟩, rfl⟩ := (hq front a hfront).viable hb hne
      exact ⟨front ++ middle, ⟨back, b, ⟨front, a, middle ++ back, hfront, hword, by simp⟩, hfree⟩,
        by simp⟩

/-- A parser that never goes on, and another one. -/
theorem Reads.bind {next : α → Parser β} {M : α → Language β} (hp : Reads p room L nothing)
    (hq : ∀ word a, L word a → Reads (next a) room (M a) B) : Reads (p >>= next) room (L.bind M) B :=
  hp.bindOpen hq fun _ _ _ _ _ => stops_nothing _

/-- A token of a kind, and another parser. -/
theorem Reads.behind {kind : Kind} {e : Expectation} {next : Token → Parser β}
    {M : Token → Language β} (h : e ≠ .shallower ∧ kind ≠ .finish)
    (hq : ∀ t, t.kind = kind → Reads (next t) room (M t) B) :
    Reads (take kind e >>= next) room (.behind kind M) B := by
  refine ((reads_take kind e h).bind fun _ t ht => hq t ht.2).congr fun word b => ⟨?_, ?_⟩
  · rintro ⟨_, t, rest, ⟨rfl, hkind⟩, hrest, rfl⟩
    exact ⟨t, rest, hkind, hrest, rfl⟩
  · rintro ⟨t, rest, hkind, hrest, rfl⟩
    exact ⟨[t], t, rest, ⟨rfl, hkind⟩, hrest, rfl⟩

/-! ## Choice

The next token decides between the branches: words of the first one start with its kind, words of
the second one never do. -/

theorem Reads.ifNext {yes no : Parser α} {M : Language α} {kind : Kind} (hyes : Reads yes room L A)
    (hno : Reads no room M A) (hL : ∀ word a, L word a → StartsWith (· = kind) word)
    (hM : ∀ word a, M word a → StartsWith (· ≠ kind) word) :
    Reads (ifNext kind yes no) room (L.either M) A where
  toLocal := hyes.toLocal.ifNext hno.toLocal kind
  word := by
    obtain ⟨word, a, hword, hfree⟩ := hyes.word
    exact ⟨word, a, .inl hword, hfree⟩
  sound {tokens a rest} hread := by
    have right (h : no.read tokens = (.ok a, rest)) :
        ∃ word, L.either M word a ∧ tokens = word ++ rest := by
      obtain ⟨word, hword, htokens⟩ := hno.sound h
      exact ⟨word, .inr hword, htokens⟩
    rcases tokens with _ | ⟨token, behind⟩
    · exact right hread
    rw [read_ifNext_cons] at hread
    split at hread
    · obtain ⟨word, hword, htokens⟩ := hyes.sound hread
      exact ⟨word, .inl hword, htokens⟩
    · exact right hread
  complete {word a rest} hword hrest := by
    unfold Gives
    rcases hword with hword | hword
    · obtain ⟨head, tail, rfl, hkind⟩ := hL word a hword
      rw [List.cons_append, read_ifNext_cons, if_pos hkind]
      exact hyes.complete hword hrest
    · obtain ⟨head, tail, rfl, hkind⟩ := hM word a hword
      rw [List.cons_append, read_ifNext_cons, if_neg hkind]
      exact hno.complete hword hrest
  viable {tokens e rest} hread hne := by
    have right (h : no.read tokens = (.error e, rest)) :
        ∃ front, (L.either M).Viable front ∧ tokens = front ++ rest := by
      obtain ⟨front, ⟨back, a, hword, hfree⟩, htokens⟩ := hno.viable h hne
      exact ⟨front, ⟨back, a, .inr hword, hfree⟩, htokens⟩
    rcases tokens with _ | ⟨token, behind⟩
    · exact right hread
    rw [read_ifNext_cons] at hread
    split at hread
    · obtain ⟨front, ⟨back, a, hword, hfree⟩, htokens⟩ := hyes.viable hread hne
      exact ⟨front, ⟨back, a, .inl hword, hfree⟩, htokens⟩
    · exact right hread

/-- A parser that reads nothing and fails, whatever it is given. -/
def Refuses (p : Parser α) : Prop := ∀ tokens, ∃ e, p.read tokens = (.error e, tokens)

theorem refuses_fail (e : Expectation) : Refuses (fail e : Parser α) := fun _ => ⟨e, rfl⟩

theorem Refuses.ifNext {yes no : Parser α} (hyes : Refuses yes) (hno : Refuses no) (kind : Kind) :
    Refuses (ifNext kind yes no)
  | [] => hno []
  | token :: rest => by
    rw [read_ifNext_cons]
    split
    · exact hyes _
    · exact hno _

/-- Without a second branch, only words of the first one are read. -/
theorem Reads.ifNextOnly {yes no : Parser α} {kind : Kind} (hyes : Reads yes room L A)
    (hno : Refuses no) (hlocal : Local no room)
    (hL : ∀ word a, L word a → StartsWith (· = kind) word) :
    Reads (Parser.ifNext kind yes no) room L A where
  toLocal := hyes.toLocal.ifNext hlocal kind
  word := hyes.word
  sound {tokens a rest} hread := by
    obtain ⟨e, h⟩ := hno tokens
    rcases tokens with _ | ⟨token, behind⟩
    · simp [h] at hread
    rw [read_ifNext_cons] at hread
    split at hread
    · exact hyes.sound hread
    · simp [h] at hread
  complete {word a rest} hword hrest := by
    unfold Gives
    obtain ⟨head, tail, rfl, hkind⟩ := hL word a hword
    rw [List.cons_append, read_ifNext_cons, if_pos hkind]
    exact hyes.complete hword hrest
  viable {tokens e rest} hread hne := by
    have right (h : no.read tokens = (.error e, rest)) :
        ∃ front, L.Viable front ∧ tokens = front ++ rest := by
      obtain ⟨e', h'⟩ := hno tokens
      exact ⟨[], hyes.word, congrArg Prod.snd (h'.symm.trans h)⟩
    rcases tokens with _ | ⟨token, behind⟩
    · exact right hread
    rw [read_ifNext_cons] at hread
    split at hread
    · exact hyes.viable hread hne
    · exact right hread

/-- An optional second part.  Behind its first part alone, the parser goes on with the kind that
starts the second one. -/
theorem Reads.thenIf (hp : Reads p room L nothing) (hq : Reads q room M nothing) (kind : Kind) :
    Reads (p.thenIf kind q) room (L.thenIf kind M) (· = kind) where
  toLocal := hp.toLocal.thenIf hq.toLocal kind
  word := by
    obtain ⟨word, a, hword, hfree⟩ := hp.word
    exact ⟨word, (a, none), .inl ⟨hword, rfl⟩, hfree⟩
  sound {tokens x rest} hread := by
    rcases read_thenIf_eq_ok_iff.1 hread with ⟨a, ha, -, rfl⟩ | ⟨a, t, mid, b, ha, hkind, hb, rfl⟩
    · obtain ⟨front, hfront, rfl⟩ := hp.sound ha
      exact ⟨front, .inl ⟨hfront, rfl⟩, rfl⟩
    · obtain ⟨front, hfront, rfl⟩ := hp.sound ha
      obtain ⟨back, hback, rfl⟩ := hq.sound hb
      exact ⟨_, .inr ⟨front, t, back, b, hfront, hkind, hback, rfl, rfl⟩, by simp⟩
  complete {word x rest} hword hrest := by
    obtain ⟨a, o⟩ := x
    rcases hword with ⟨hword, rfl⟩ | ⟨front, t, back, b, hfront, hkind, hback, rfl, rfl⟩
    · exact (hp.complete hword (stops_nothing rest)).thenIf_none hrest
    · rw [List.append_assoc, List.cons_append]
      exact (hp.complete hfront (stops_nothing _)).thenIf_some hkind
        (hq.complete hback (stops_nothing rest))
  viable {tokens e rest} hread hne := by
    rcases read_thenIf_eq_error_iff.1 hread with ha | ⟨a, t, mid, ha, hkind, hb⟩
    · obtain ⟨front, ⟨back, a, hword, hfree⟩, rfl⟩ := hp.viable ha hne
      exact ⟨front, ⟨back, (a, none), .inl ⟨hword, rfl⟩, hfree⟩, rfl⟩
    · obtain ⟨front, hfront, rfl⟩ := hp.sound ha
      obtain ⟨middle, ⟨back, b, hword, hfree⟩, rfl⟩ := hq.viable hb hne
      exact ⟨front ++ t :: middle, ⟨back, (a, some b),
        .inr ⟨front, t, middle ++ back, b, hfront, hkind, hword, rfl, by simp⟩, hfree⟩, by simp⟩

/-! ## Repetition -/

section While

variable {test : Kind → Bool} {combine : α → Token → β → α}

/-- What a repetition has read so far goes on to a longer word, by induction on what is left. -/
theorem sound_readWhile (hq : Reads q room M A) {first : Language α} {rest : List Token} {b : α} :
    ∀ (tokens front : List Token) (a : α),
      readWhile test q combine a tokens = (.ok b, rest) →
      Language.Joined first test M combine front a →
      ∃ back, Language.Joined first test M combine (front ++ back) b ∧ tokens = back ++ rest
  | [], front, a, hread, hfront => by
    obtain ⟨rfl, rfl⟩ : a = b ∧ [] = rest := by simpa using hread
    exact ⟨[], by simpa using hfront, rfl⟩
  | token :: behind, front, a, hread, hfront => by
    rw [readWhile_cons] at hread
    split at hread
    next htest =>
      rcases h : q.read behind with ⟨e | c, left⟩
      · simp [h] at hread
      · rw [h] at hread
        obtain ⟨word, hword, hsplit⟩ := hq.sound h
        obtain ⟨back, hback, rfl⟩ :=
          sound_readWhile hq left (front ++ token :: word) _ hread (.more hfront htest hword)
        exact ⟨token :: (word ++ back), by simpa using hback, by simp [hsplit]⟩
    next =>
      obtain ⟨rfl, rfl⟩ : a = b ∧ token :: behind = rest := by simpa using hread
      exact ⟨[], by simpa using hfront, rfl⟩
termination_by tokens => tokens.length
decreasing_by
  have := length_read h
  simp only [List.length_cons]
  omega

/-- What a repetition has consumed when it fails can be completed, by induction on what is left. -/
theorem viable_readWhile (hq : Reads q room M A) {first : Language α} {rest : List Token}
    {e : Expectation} (hne : e ≠ .shallower) :
    ∀ (tokens front : List Token) (a : α),
      readWhile test q combine a tokens = (.error e, rest) →
      Language.Joined first test M combine front a →
      ∃ middle, Language.Viable (.Joined first test M combine) (front ++ middle) ∧
        tokens = middle ++ rest
  | [], front, a, hread, _ => by simp at hread
  | token :: behind, front, a, hread, hfront => by
    rw [readWhile_cons] at hread
    split at hread
    next htest =>
      rcases h : q.read behind with ⟨e' | c, left⟩
      · rw [h] at hread
        obtain ⟨rfl, rfl⟩ : e' = e ∧ left = rest := by simpa using hread
        obtain ⟨middle, ⟨back, c, hword, hfree⟩, rfl⟩ := hq.viable h hne
        exact ⟨token :: middle, ⟨back, _, by simpa using hfront.more htest hword, hfree⟩, rfl⟩
      · rw [h] at hread
        obtain ⟨word, hword, hsplit⟩ := hq.sound h
        obtain ⟨middle, hback, rfl⟩ := viable_readWhile hq hne left
          (front ++ token :: word) _ hread (.more hfront htest hword)
        exact ⟨token :: (word ++ middle), by simpa using hback, by simp [hsplit]⟩
    next => simp at hread
termination_by tokens => tokens.length
decreasing_by
  have := length_read h
  simp only [List.length_cons]
  omega

/-- A joined word is read up to where the repetition goes on from its worth. -/
theorem complete_foldWhile (hp : Reads p room L A) (hq : Reads q room M A)
    (htest : ∀ kind, test kind = true → ¬ A kind) {word rest : List Token} {a : α}
    (h : Language.Joined L test M combine word a) (hrest : Stops A rest) :
    (foldWhile p test q combine).read (word ++ rest) = readWhile test q combine a rest ∨
      ∃ left, (foldWhile p test q combine).read (word ++ rest) = (.error .shallower, left) := by
  induction h generalizing rest with
  | first hword =>
    rw [read_foldWhile]
    rcases hp.complete hword hrest with h | ⟨left, h⟩
    · exact .inl (by rw [h])
    · exact .inr ⟨left, by rw [h]⟩
  | @more front back t a b _ hkind hback ih =>
    have hstop : Stops A (t :: (back ++ rest)) := fun token hmem => by
      obtain rfl : t = token := by simpa using hmem
      exact htest _ hkind
    rw [List.append_assoc, List.cons_append]
    rcases ih hstop with h | h
    · rw [h, readWhile_cons, if_pos hkind]
      rcases hq.complete hback hrest with h | ⟨left, h⟩
      · exact .inl (by rw [h])
      · exact .inr ⟨left, by rw [h]⟩
    · exact .inr h

/-- **Operands joined by tokens of some kinds.** -/
theorem Reads.foldWhile (hp : Reads p room L A) (hq : Reads q room M A)
    (htest : ∀ kind, test kind = true → ¬ A kind) :
    Reads (p.foldWhile test q combine) room (.Joined L test M combine)
      (fun kind => test kind = true ∨ A kind) where
  toLocal := hp.toLocal.foldWhile hq.toLocal
  word := by
    obtain ⟨word, a, hword, hfree⟩ := hp.word
    exact ⟨word, a, .first hword, hfree⟩
  sound {tokens b rest} hread := by
    rw [read_foldWhile] at hread
    rcases p.read_cases tokens with ⟨a, mid, h⟩ | ⟨e, mid, h⟩
    · rw [h] at hread
      obtain ⟨front, hfront, rfl⟩ := hp.sound h
      obtain ⟨back, hback, rfl⟩ := sound_readWhile hq mid front a hread (.first hfront)
      exact ⟨front ++ back, hback, by simp⟩
    · simp [h] at hread
  complete {word a rest} hword hrest := by
    rcases complete_foldWhile hp hq htest hword (hrest.mono fun _ => .inr) with h | h
    · refine .inl (h.trans ?_)
      rcases rest with _ | ⟨token, behind⟩
      · exact readWhile_nil _ _ _ _
      · rw [readWhile_cons, if_neg fun ht => hrest token rfl (.inl ht)]
    · exact .inr h
  viable {tokens e rest} hread hne := by
    rw [read_foldWhile] at hread
    rcases p.read_cases tokens with ⟨a, mid, h⟩ | ⟨e', mid, h⟩
    · rw [h] at hread
      obtain ⟨front, hfront, rfl⟩ := hp.sound h
      obtain ⟨middle, hmiddle, rfl⟩ :=
        viable_readWhile hq hne mid front a hread (.first hfront)
      exact ⟨front ++ middle, hmiddle, by simp⟩
    · rw [h] at hread
      obtain ⟨rfl, rfl⟩ : e' = e ∧ mid = rest := by simpa using hread
      obtain ⟨front, ⟨back, a, hword, hfree⟩, rfl⟩ := hp.viable h hne
      exact ⟨front, ⟨back, a, .first hword, hfree⟩, rfl⟩

end While

section Until

variable {close : Kind} {missing : Expectation} {step : σ → Parser σ} {L : σ → Language σ}

theorem sound_readUntil (hstep : ∀ s, Reads (step s) room (L s) A) {rest : List Token} {t : σ} :
    ∀ (tokens : List Token) (s : σ), readUntil close missing step s tokens = (.ok t, rest) →
      ∃ word, Language.Until close L s word t ∧ tokens = word ++ rest
  | [], s, hread => by simp at hread
  | token :: behind, s, hread => by
    rw [readUntil_cons] at hread
    split at hread
    next hclose =>
      obtain ⟨rfl, rfl⟩ : s = t ∧ behind = rest := by simpa using hread
      exact ⟨[token], .close hclose, rfl⟩
    next =>
      rcases h : (step s).read (token :: behind) with ⟨e | u, left⟩
      · simp [h] at hread
      · rw [h] at hread
        obtain ⟨front, hfront, hsplit⟩ := (hstep s).sound h
        obtain ⟨back, hback, rfl⟩ := sound_readUntil hstep left u hread
        exact ⟨front ++ back, .step hfront hback, by simpa using hsplit⟩
termination_by tokens => tokens.length
decreasing_by exact length_read h

theorem viable_readUntil (hstep : ∀ s, Reads (step s) room (L s) A) (hfinish : close ≠ .finish)
    {rest : List Token} {e : Expectation} (hne : e ≠ .shallower) :
    ∀ (tokens : List Token) (s : σ), readUntil close missing step s tokens = (.error e, rest) →
      ∃ front, Language.Viable (.Until close L s) front ∧ tokens = front ++ rest
  | [], s, hread => by
    obtain ⟨-, rfl⟩ : missing = e ∧ [] = rest := by simpa using hread
    exact ⟨[], ⟨[⟨close, "", .start⟩], s, .close rfl, by simp [hfinish]⟩, rfl⟩
  | token :: behind, s, hread => by
    have last (s : σ) : Language.Until close L s [⟨close, "", .start⟩] s := .close rfl
    rw [readUntil_cons] at hread
    split at hread
    next => simp at hread
    next =>
      rcases h : (step s).read (token :: behind) with ⟨e' | u, left⟩
      · rw [h] at hread
        obtain ⟨rfl, rfl⟩ : e' = e ∧ left = rest := by simpa using hread
        obtain ⟨front, ⟨back, t, hword, hfree⟩, hsplit⟩ := (hstep s).viable h hne
        refine ⟨front, ⟨back ++ [⟨close, "", .start⟩], t, ?_, by simp [hfree, hfinish]⟩, hsplit⟩
        rw [← List.append_assoc]
        exact .step hword (last t)
      · rw [h] at hread
        obtain ⟨front, hfront, hsplit⟩ := (hstep s).sound h
        obtain ⟨middle, ⟨back, t, hword, hfree⟩, rfl⟩ :=
          viable_readUntil hstep hfinish hne left u hread
        refine ⟨front ++ middle, ⟨back, t, ?_, hfree⟩, by simpa using hsplit⟩
        rw [List.append_assoc]
        exact .step hfront hword
termination_by tokens => tokens.length
decreasing_by exact length_read h

/-- **Items up to and with a closing token.**  Items neither start with the closing kind nor with a
kind that makes the item in front of them go on. -/
theorem Reads.foldUntil (hstep : ∀ s, Reads (step s) room (L s) A)
    (hL : ∀ s word t, L s word t → StartsWith (fun kind => kind ≠ close ∧ ¬ A kind) word)
    (hclose : ¬ A close) (s : σ) (h : missing ≠ .shallower ∧ close ≠ .finish) :
    Reads (foldUntil close missing step s) room (.Until close L s) nothing where
  toLocal := .foldUntil h.1 (fun s => (hstep s).toLocal) s
  word := ⟨[⟨close, "", .start⟩], s, .close rfl, by simp [h.2]⟩
  sound hread := sound_readUntil hstep _ s hread
  complete {word t rest} hword _ := by
    change readUntil close missing step s (word ++ rest) = _ ∨
      ∃ left, readUntil close missing step s (word ++ rest) = _
    induction hword with
    | close hkind => exact .inl (by simp [readUntil_cons, hkind])
    | @step front back s u t hfront hback ih =>
      have hstop : Stops A (back ++ rest) := by
        cases hback with
        | @close token _ hkind =>
          exact StartsWith.stops ⟨token, [], rfl, hkind ▸ hclose⟩ rest
        | step hnext _ =>
          rw [List.append_assoc]
          exact StartsWith.stops ((hL _ _ _ hnext).imp fun _ h => h.2) _
      obtain ⟨head, tail, rfl, hkind, -⟩ := hL s front u hfront
      have hread := (hstep s).complete hfront hstop
      rw [List.append_assoc]
      rw [List.cons_append] at hread ⊢
      rw [readUntil_cons, if_neg hkind]
      rcases hread with h | ⟨left, h⟩
      · rw [h]
        exact ih
      · exact .inr ⟨left, by rw [h]⟩
  viable hread hne := viable_readUntil hstep h.2 hne _ s hread

end Until

theorem reads_skipThrough (close : Kind) (missing : Expectation)
    (h : missing ≠ .shallower ∧ close ≠ .finish) :
    Reads (skipThrough close missing) room (.through close) nothing where
  toLocal := local_skipThrough close h.1
  word := ⟨[⟨close, "", .start⟩], (), ⟨[], _, by simp, rfl, rfl⟩, by simp [h.2]⟩
  sound {tokens u rest} hread := by
    induction tokens with
    | nil => simp at hread
    | cons token behind ih =>
      rw [read_skipThrough_cons] at hread
      split at hread
      next hkind =>
        obtain rfl : behind = rest := by simpa using hread
        exact ⟨[token], ⟨[], token, by simp, hkind, rfl⟩, rfl⟩
      next hkind =>
        obtain ⟨_, ⟨skipped, last, hskipped, hlast, rfl⟩, rfl⟩ := ih hread
        exact ⟨token :: (skipped ++ [last]),
          ⟨token :: skipped, last, List.forall_mem_cons.2 ⟨hkind, hskipped⟩, hlast, rfl⟩, rfl⟩
  complete {word u rest} hword _ := by
    obtain ⟨skipped, last, hskipped, hlast, rfl⟩ := hword
    refine .inl ?_
    induction skipped with
    | nil => simp [read_skipThrough_cons, hlast]
    | cons token skipped ih =>
      obtain ⟨hkind, hskipped⟩ := List.forall_mem_cons.1 hskipped
      rw [List.cons_append, List.cons_append, read_skipThrough_cons, if_neg hkind]
      exact ih hskipped
  viable {tokens e rest} hread _ := by
    induction tokens with
    | nil =>
      obtain ⟨-, rfl⟩ : missing = e ∧ [] = rest := by simpa using hread
      exact ⟨[], ⟨[⟨close, "", .start⟩], (), ⟨[], _, by simp, rfl, rfl⟩, by simp [h.2]⟩, rfl⟩
    | cons token behind ih =>
      rw [read_skipThrough_cons] at hread
      split at hread
      next => simp at hread
      next hkind =>
        obtain ⟨front, ⟨back, _, ⟨skipped, last, hskipped, hlast, hword⟩, hfree⟩, rfl⟩ := ih hread
        exact ⟨token :: front, ⟨back, (), ⟨token :: skipped, last,
          List.forall_mem_cons.2 ⟨hkind, hskipped⟩, hlast, by simp [hword]⟩, hfree⟩, rfl⟩

end Parser

end ScriptFrontend
