import ScriptFrontend.Decimal.Binary64

/-!
# Decimal/Shortest — the shortest decimal that reads back

`Shortest.digits` looks for the fewest digits that, read as a decimal, give a binary number back:
for 1, 2, … digits it tries the two neighbours of the number on that decimal grid, and of two that
read back it takes the nearer, the even one on a tie.  `Binary64.text` lays the digits out.

A number reads back when it lies between the midpoints to the neighbouring binary numbers, the
midpoints included if the significand is even.
-/

namespace ScriptFrontend

/-- A positive decimal number: digits and the exponent of the last one. -/
structure DecimalDigits where
  digits : Nat
  exponent : Int
  deriving DecidableEq

/-- Whether a fraction is at most another one. -/
def fractionLe (a b : Nat × Nat) : Bool := a.1 * b.2 ≤ b.1 * a.2

/-- The product of a fraction with a power of a base. -/
def scaleFraction (a : Nat × Nat) (base : Nat) (exponent : Int) : Nat × Nat :=
  let power := scaledFraction 1 base exponent
  (a.1 * power.1, a.2 * power.2)

namespace Shortest

/-- The numbers, as fractions, between which a decimal reads back as `significand · 2 ^ exponent`.
-/
def midpoints (significand : Nat) (exponent : Int) : (Nat × Nat) × (Nat × Nat) :=
  let closer := significand = Nat.pow 2 52 ∧ exponent > Binary64.leastExponent
  (scaledFraction (if closer then 4 * significand - 1 else 4 * significand - 2) 2 (exponent - 2),
    scaledFraction (4 * significand + 2) 2 (exponent - 2))

/-- Whether a decimal reads back as `significand · 2 ^ exponent`. -/
def readsBack (significand : Nat) (exponent : Int) (candidate : DecimalDigits) : Bool :=
  let value := scaledFraction candidate.digits 10 candidate.exponent
  let bounds := midpoints significand exponent
  if significand % 2 = 0 then fractionLe bounds.1 value && fractionLe value bounds.2
  else !fractionLe value bounds.1 && !fractionLe bounds.2 value

/-- The exponent of the greatest power of ten that is not above a positive fraction. -/
def log10Fraction (value : Nat × Nat) : Int :=
  let guess : Int := ((Nat.toDigits 10 value.1).length : Int) - (Nat.toDigits 10 value.2).length
  if fractionLe (scaledFraction 1 10 guess) value then guess else guess - 1

/-- The candidate with its last digit at `unit` that reads back, if there is one; of two, the nearer
one, and the even one on a tie. -/
def onGrid (significand : Nat) (exponent : Int) (value : Nat × Nat) (unit : Int) :
    Option DecimalDigits :=
  let scaled := scaleFraction value 10 (-unit)
  let below : DecimalDigits := ⟨scaled.1 / scaled.2, unit⟩
  let above : DecimalDigits := ⟨scaled.1 / scaled.2 + 1, unit⟩
  match readsBack significand exponent below, readsBack significand exponent above with
  | true, true => some ⟨roundedQuotient scaled.1 scaled.2, unit⟩
  | true, false => some below
  | false, true => some above
  | false, false => none

/-- **The shortest decimal that reads back** as the positive number `significand · 2 ^ exponent`.
Seventeen digits always do. -/
def digits (significand : Nat) (exponent : Int) : DecimalDigits :=
  let value := scaledFraction significand 2 exponent
  let leading := log10Fraction value
  ((List.range 17).findSome? fun (n : Nat) => onGrid significand exponent value (leading - n)).getD
    ⟨significand, exponent⟩

end Shortest

/-- How a number of floating point is laid out. -/
structure NumberLayout where
  /-- The least exponent of the leading digit that is written without one. -/
  leastPlain : Int
  /-- The greatest such exponent. -/
  greatestPlain : Int
  /-- How many digits an exponent has at least. -/
  exponentWidth : Nat

namespace Binary64

/-- Numbers from 0.0001 up to below 10¹⁶ are written without an exponent. -/
def layout : NumberLayout := ⟨-4, 15, 2⟩

/-- Digits laid out, the leading one having the given exponent. -/
def layOut (layout : NumberLayout) (digits : List Char) (leading : Int) : List Char :=
  if layout.leastPlain ≤ leading ∧ leading ≤ layout.greatestPlain then
    if leading < 0 then '0' :: '.' :: List.replicate (-leading - 1).toNat '0' ++ digits
    else
      let whole := leading.toNat + 1
      let padded := digits ++ List.replicate (whole - digits.length) '0'
      let fraction := padded.drop whole
      padded.take whole ++ '.' :: (if fraction.isEmpty then ['0'] else fraction)
  else
    let size := Nat.toDigits 10 leading.natAbs
    let mantissa :=
      match digits with
      | [] => []
      | [digit] => [digit]
      | digit :: rest => digit :: '.' :: rest
    mantissa ++ 'e' :: (if leading < 0 then '-' else '+') ::
      List.replicate (layout.exponentWidth - size.length) '0' ++ size

/-- A decimal number without the zeros that it ends in. -/
def withoutTrailingZeros (digits : List Char) : List Char :=
  (digits.reverse.dropWhile (· == '0')).reverse

/-- **The text of a number.** -/
def text : Binary64 → String
  | .nan => "nan"
  | .infinity negative => if negative then "-inf" else "inf"
  | .finite negative significand exponent =>
    let magnitude :=
      if significand = 0 then ['0', '.', '0']
      else
        let shortest := Shortest.digits significand exponent
        let all := Nat.toDigits 10 shortest.digits
        layOut layout (withoutTrailingZeros all) (shortest.exponent + all.length - 1)
    String.ofList (if negative then '-' :: magnitude else magnitude)

end Binary64

end ScriptFrontend
