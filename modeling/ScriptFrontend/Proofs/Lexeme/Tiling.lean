import ScriptFrontend.Proofs.Lexeme.Calls

/-!
# Proofs/Lexeme/Tiling — tokens and gaps tile the text

The tokens of a text stand at growing offsets, each lexeme is the slice of the text at its offset,
and what is between them are gaps.  `Tiles` says this of the text from an offset on and follows the
calls for the next token; `Tiling` says it of a whole text.

`Location.ofOffset` counts lines and columns in the text itself: newlines in front of an offset, and
characters since the last one.  A stream counts them as it goes, to the same end (`past_start`).
-/

namespace ScriptFrontend

/-! ## Places -/

/-- **The place of an offset**: one line more than there are newlines in front of it, and one column
more than there are characters since the last of them. -/
def Location.ofOffset (source : List Char) (offset : Nat) : Location where
  line := 1 + (source.take offset).count '\n'
  column := 1 + ((source.take offset).reverse.takeWhile (· != '\n')).length

/-- Lines and columns that are counted character by character are those of the whole front. -/
theorem past_start (front : List Char) :
    Location.start.past front =
      ⟨1 + front.count '\n', 1 + (front.reverse.takeWhile (· != '\n')).length⟩ := by
  generalize hreversed : front.reverse = reversed
  obtain rfl : front = reversed.reverse := List.reverse_eq_iff.1 hreversed
  clear hreversed
  induction reversed with
  | nil => rfl
  | cons c reversed ih =>
    rw [List.reverse_cons, Location.past_append, ih]
    by_cases hc : c = '\n'
    · simp [hc, Location.after, Int.add_assoc]
    · simp [hc, Location.after, Int.add_assoc, List.count_append]

theorem ofOffset_length (front back : List Char) :
    Location.ofOffset (front ++ back) front.length = Location.start.past front := by
  rw [past_start, Location.ofOffset, List.take_left]

/-! ## Slices -/

/-- The part of a text from one offset up to another one. -/
def slice (source : List Char) (start stop : Nat) : List Char :=
  (source.drop start).take (stop - start)

/-- A slice, and what is behind it. -/
theorem slice_append_drop (source : List Char) {start stop : Nat} (h : start ≤ stop) :
    slice source start stop ++ source.drop stop = source.drop start := by
  have hdrop : source.drop stop = (source.drop start).drop (stop - start) := by
    rw [List.drop_drop, Nat.add_sub_cancel' h]
  rw [slice, hdrop, List.take_append_drop]

theorem slice_length (front mid back : List Char) :
    slice (front ++ (mid ++ back)) front.length (front ++ mid).length = mid := by
  rw [slice, List.drop_left, List.length_append, Nat.add_sub_cancel_left, List.take_left]

theorem isGap_iff {c : Char} : Cut.isGap c = true ↔ c = ' ' ∨ c = '\t' ∨ c = '\r' ∨ c = '\n' := by
  simp [Cut.isGap, or_assoc]

/-! ## Tiles -/

/-- **Tokens with their offsets tile a text** from an offset on: gaps stand in front of each and
behind the last one. -/
inductive Tiles (source : List Char) : Nat → List (Nat × Token) → Prop where
  | nil {start : Nat} :
    start ≤ source.length → (slice source start source.length).all Cut.isGap = true →
    Tiles source start []
  | cons {start offset : Nat} {token : Token} {placed : List (Nat × Token)} :
    start ≤ offset → (slice source start offset).all Cut.isGap = true → token.lexeme ≠ "" →
    slice source offset (offset + token.lexeme.length) = token.lexeme.toList →
    token.place = .ofOffset source offset → Tiles source (offset + token.lexeme.length) placed →
    Tiles source start ((offset, token) :: placed)

/-- A call with its start. -/
def Stream.placed (call : Token × Stream) : Nat × Token := (Stream.startOf call, call.1)

/-- **The calls for the next token tile the text**, and the final one stands at its end. -/
theorem tiles_of_calls {vocabulary : Vocabulary} {front back : List Char}
    {calls : List (Token × Stream)} {final : Token × Stream}
    (h : Stream.Calls vocabulary (.between front back) calls final) :
    Tiles (front ++ back) front.length (calls.map Stream.placed) ∧
      final.1 = .finish (.ofOffset (front ++ back) (front ++ back).length) := by
  refine Stream.calls_induction (motive := fun front back calls final =>
    Tiles (front ++ back) front.length (calls.map Stream.placed) ∧
      final.1 = .finish (.ofOffset (front ++ back) (front ++ back).length)) ?_ ?_ h
  · intro front gap hgap
    have hslice := slice_length front gap []
    have hplace := ofOffset_length (front ++ gap) []
    rw [List.append_nil] at hslice hplace
    exact ⟨.nil (by simp) (by rwa [hslice]), by rw [hplace]⟩
  · rintro front gap first rest calls final hgap hfirst ⟨htiles, hfinal⟩
    have hcut := Cut.taken_append_left vocabulary first rest
    have hsource : front ++ gap ++ (Cut.cut vocabulary first rest).taken ++
        (Cut.cut vocabulary first rest).left = front ++ (gap ++ first :: rest) := by
      simp [hcut]
    rw [hsource] at htiles hfinal
    refine ⟨?_, hfinal⟩
    have hstart := Stream.startOf_cutCall vocabulary front gap first rest
    have hlength : (front ++ gap).length +
          (Stream.cutCall vocabulary front gap first rest).1.lexeme.length =
        (front ++ gap ++ (Cut.cut vocabulary first rest).taken).length := by
      simp [Stream.cutCall, Nat.add_assoc]
    rw [List.map_cons, Stream.placed, hstart]
    refine .cons (by simp) ?_ ?_ ?_ ?_ (by rwa [hlength])
    · rwa [slice_length]
    · simpa [Stream.cutCall] using Cut.taken_ne_nil vocabulary first rest
    · rw [hlength, ← hsource, List.append_assoc _ _ (Cut.cut vocabulary first rest).left,
        slice_length, Stream.cutCall, String.toList_ofList]
    · rw [← List.append_assoc, ofOffset_length]
      rfl

/-! ## Tilings -/

/-- What is in front of each token and behind the last one, from an offset on. -/
def gaps (source : List Char) (start : Nat) : List (Nat × Token) → List (List Char)
  | [] => [slice source start source.length]
  | (offset, token) :: placed =>
    slice source start offset :: gaps source (offset + token.lexeme.length) placed

/-- Gaps and lexemes in turn. -/
def woven : List (List Char) → List (List Char) → List Char
  | gap :: gaps, lexeme :: lexemes => gap ++ (lexeme ++ woven gaps lexemes)
  | gaps, _ => gaps.flatten

/-- **Tokens with their offsets tile a whole text.** -/
structure Tiling (source : List Char) (placed : List (Nat × Token)) : Prop where
  /-- The offsets grow. -/
  increasing : (placed.map Prod.fst).Pairwise (· < ·)
  /-- No token reaches into the next one. -/
  apart : placed.Pairwise fun one next => one.1 + one.2.lexeme.length ≤ next.1
  /-- Each lexeme is the slice of the text at its offset, and is not empty. -/
  lexemes : ∀ one ∈ placed, one.2.lexeme ≠ "" ∧
    slice source one.1 (one.1 + one.2.lexeme.length) = one.2.lexeme.toList
  /-- Each token stands at the place of its offset. -/
  places : ∀ one ∈ placed, one.2.place = .ofOffset source one.1
  /-- What is between the tokens are blanks, tabs, carriage returns and newlines. -/
  blank : ∀ gap ∈ gaps source 0 placed, ∀ c ∈ gap, c = ' ' ∨ c = '\t' ∨ c = '\r' ∨ c = '\n'
  /-- Gaps and lexemes in turn are the text. -/
  whole : woven (gaps source 0 placed) (placed.map (·.2.lexeme.toList)) = source

section Tiles

variable {source : List Char} {start : Nat} {placed : List (Nat × Token)}

theorem Tiles.start_le (h : Tiles source start placed) :
    ∀ one ∈ placed, start ≤ one.1 := by
  induction h with
  | nil => simp
  | cons hle _ _ _ _ _ ih =>
    refine List.forall_mem_cons.2 ⟨hle, fun one hmem => ?_⟩
    exact Nat.le_trans (Nat.le_trans hle (Nat.le_add_right _ _)) (ih one hmem)

theorem Tiles.apart (h : Tiles source start placed) :
    placed.Pairwise fun one next => one.1 + one.2.lexeme.length ≤ next.1 := by
  induction h with
  | nil => exact .nil
  | cons _ _ _ _ _ htiles ih => exact .cons htiles.start_le ih

theorem Tiles.lexemes (h : Tiles source start placed) :
    ∀ one ∈ placed, one.2.lexeme ≠ "" ∧
      slice source one.1 (one.1 + one.2.lexeme.length) = one.2.lexeme.toList := by
  induction h with
  | nil => simp
  | cons _ _ hne hslice _ _ ih => exact List.forall_mem_cons.2 ⟨⟨hne, hslice⟩, ih⟩

theorem Tiles.places (h : Tiles source start placed) :
    ∀ one ∈ placed, one.2.place = .ofOffset source one.1 := by
  induction h with
  | nil => simp
  | cons _ _ _ _ hplace _ ih => exact List.forall_mem_cons.2 ⟨hplace, ih⟩

theorem Tiles.increasing (h : Tiles source start placed) :
    (placed.map Prod.fst).Pairwise (· < ·) := by
  refine List.pairwise_map.2 (h.apart.imp_of_mem fun {one next} hone _ hle => ?_)
  have hpos : 0 < one.2.lexeme.length :=
    Nat.pos_of_ne_zero fun hzero => (h.lexemes one hone).1 (String.length_eq_zero_iff.1 hzero)
  omega

theorem Tiles.blank (h : Tiles source start placed) :
    ∀ gap ∈ gaps source start placed, gap.all Cut.isGap = true := by
  induction h with
  | nil _ hgap => exact List.forall_mem_cons.2 ⟨hgap, by simp⟩
  | cons _ hgap _ _ _ _ ih => exact List.forall_mem_cons.2 ⟨hgap, ih⟩

/-- Gaps and lexemes from an offset on are the text from there on. -/
theorem Tiles.whole (h : Tiles source start placed) :
    woven (gaps source start placed) (placed.map (·.2.lexeme.toList)) = source.drop start := by
  induction h with
  | nil hle _ =>
    have hslice := slice_append_drop source hle
    rw [List.drop_length, List.append_nil] at hslice
    simpa [gaps, woven] using hslice
  | @cons start offset token placed hle _ _ hslice _ _ ih =>
    rw [gaps, List.map_cons, woven, ih, ← hslice, slice_append_drop _ (Nat.le_add_right _ _),
      slice_append_drop _ hle]

theorem Tiles.tiling (h : Tiles source 0 placed) : Tiling source placed where
  increasing := h.increasing
  apart := h.apart
  lexemes := h.lexemes
  places := h.places
  blank gap hmem c hc := isGap_iff.1 (List.all_eq_true.1 (h.blank gap hmem) c hc)
  whole := h.whole

end Tiles

/-- **Reading a text token by token loses nothing.**  The calls for the next token on a fresh stream
come to an end in one way only; all but the final one tile the text, and that one is the token that
ends the text, at the place of its end. -/
theorem calls_tile_text (vocabulary : Vocabulary) (text : String) :
    ∃ calls final,
      (∀ others other, Stream.Calls vocabulary (.ofText text) others other ↔
        others = calls ∧ other = final) ∧
      Tiling text.toList (calls.map Stream.placed) ∧
      final.1 = ⟨.finish, "", .ofOffset text.toList text.toList.length⟩ := by
  obtain ⟨calls, final, hcalls⟩ := Stream.exists_calls vocabulary [] text.toList
  obtain ⟨htiles, hfinal⟩ := tiles_of_calls hcalls
  refine ⟨calls, final, fun others other => ⟨hcalls.unique, ?_⟩, htiles.tiling, hfinal⟩
  rintro ⟨rfl, rfl⟩
  exact hcalls

end ScriptFrontend
