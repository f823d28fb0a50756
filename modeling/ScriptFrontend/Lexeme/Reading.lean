import ScriptFrontend.Lexeme.Cut
import ScriptFrontend.Token.Basic

/-!
# Lexeme/Reading — the tokens of a text, one after the other

A `Reading` is what is still to be read of a text and the place of its first character.
`Reading.next` takes the next token off it, `Reading.steps` all of them, comments included, each
with the reading behind it.  `tokens` is what a parser is given: the tokens up to the first one that
ends the text, without the comments.

Every reading ends, since each token takes at least one character (`length_next_lt`).
-/

namespace ScriptFrontend

/-- What is left of a text, and where it starts. -/
structure Reading where
  rest : List Char
  place : Location
  deriving DecidableEq

namespace Reading

/-- The reading of a whole text. -/
def start (text : String) : Reading := ⟨text.toList, .start⟩

/-- The reading behind the gap that it starts with. -/
def skipGap (reading : Reading) : Reading :=
  ⟨reading.rest.dropWhile Cut.isGap, reading.place.past (reading.rest.takeWhile Cut.isGap)⟩

/-- **The next token**, and the reading behind it. -/
def next (vocabulary : Vocabulary) (reading : Reading) : Token × Reading :=
  let place := reading.skipGap.place
  match reading.skipGap.rest with
  | [] => (.finish place, ⟨[], place⟩)
  | first :: rest =>
    let cut := Cut.cut vocabulary first rest
    (⟨cut.kind, String.ofList cut.taken, place⟩, ⟨cut.left, place.past cut.taken⟩)

theorem length_skipGap_le (reading : Reading) :
    reading.skipGap.rest.length ≤ reading.rest.length :=
  (List.dropWhile_suffix _).length_le

/-- Where there is more than a gap, the next token makes the reading shorter. -/
theorem length_next_lt {vocabulary : Vocabulary} {reading : Reading} {first : Char}
    {rest : List Char} (h : reading.skipGap.rest = first :: rest) :
    (reading.next vocabulary).2.rest.length < reading.rest.length := by
  have shorter := Cut.length_left_lt vocabulary first rest
  have gap := reading.length_skipGap_le
  rw [h] at gap
  simp only [next, h]
  omega

/-- **The tokens of a reading**, each with the reading behind it.  The last one is at the end. -/
def steps (vocabulary : Vocabulary) (reading : Reading) : List (Token × Reading) :=
  match _h : reading.skipGap.rest with
  | [] => [reading.next vocabulary]
  | _ :: _ => reading.next vocabulary :: steps vocabulary (reading.next vocabulary).2
termination_by reading.rest.length
decreasing_by exact length_next_lt _h

/-- A list up to and with the first member that passes a test. -/
def takeThrough {α : Type} (test : α → Bool) : List α → List α
  | [] => []
  | a :: rest => if test a then [a] else a :: takeThrough test rest

/-- The steps up to and with the first token that ends the text. -/
def stepsToFinish (vocabulary : Vocabulary) (reading : Reading) : List (Token × Reading) :=
  takeThrough (fun step => step.1.kind == .finish) (reading.steps vocabulary)

/-- The tokens that a parser is given: those up to the end, without the comments. -/
def tokens (vocabulary : Vocabulary) (reading : Reading) : List Token :=
  ((reading.stepsToFinish vocabulary).map Prod.fst).filter fun token => !token.kind.isDiscarded

end Reading

/-- **The tokens of a text.** -/
def tokens (vocabulary : Vocabulary) (text : String) : List Token :=
  (Reading.start text).tokens vocabulary

end ScriptFrontend
