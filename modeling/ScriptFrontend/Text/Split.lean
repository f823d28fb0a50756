/-!
# Text/Split — the parts of a text between the marks in it

`splitAround` cuts a text at every occurrence of a mark.  There is one part more than there are
marks, so a text without the mark is its own only part, and a mark at an end leaves an empty part
there.
-/

namespace ScriptFrontend

/-- Puts a character in front of the first part. -/
def extendFirst (c : Char) : List (List Char) → List (List Char)
  | [] => [[c]]
  | part :: parts => (c :: part) :: parts

/-- The parts of a list of characters between the marks in it. -/
def splitCharsAround (mark : Char) : List Char → List (List Char)
  | [] => [[]]
  | c :: rest =>
    if c = mark then [] :: splitCharsAround mark rest
    else extendFirst c (splitCharsAround mark rest)

/-- **The parts of a text between the marks in it.** -/
def splitAround (mark : Char) (text : String) : List String :=
  (splitCharsAround mark text.toList).map String.ofList

theorem length_extendFirst (c : Char) (parts : List (List Char)) (h : parts ≠ []) :
    (extendFirst c parts).length = parts.length := by
  cases parts with
  | nil => exact absurd rfl h
  | cons part parts => rfl

/-- There is one part more than there are marks. -/
theorem length_splitCharsAround (mark : Char) (text : List Char) :
    (splitCharsAround mark text).length = text.count mark + 1 := by
  induction text with
  | nil => rfl
  | cons c rest ih =>
    have some : splitCharsAround mark rest ≠ [] := fun h => by simp [h] at ih
    rw [splitCharsAround]
    split
    next h => simp [h, ih]
    next h => rw [length_extendFirst c _ some, ih, List.count_cons_of_ne h]

end ScriptFrontend
