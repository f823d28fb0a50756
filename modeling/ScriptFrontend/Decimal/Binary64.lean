/-!
# Decimal/Binary64 — the binary numbers nearest to decimal ones

A finite `Binary64` is a significand below 2⁵³ times a power of two not below 2⁻¹⁰⁷⁴, with a sign.
`Binary64.ofDecimal` gives the one nearest to a decimal number, an even significand on a tie, and an
infinity where the exponent would pass 971.  All arithmetic is on natural numbers.
-/

namespace ScriptFrontend

/-- A binary floating-point number of 64 bits. -/
inductive Binary64 where
  | nan
  | infinity (negative : Bool)
  | finite (negative : Bool) (significand : Nat) (exponent : Int)
  deriving DecidableEq, Inhabited

/-- A quotient rounded to the nearest natural number, to the even one on a tie. -/
def roundedQuotient (numerator denominator : Nat) : Nat :=
  let quotient := numerator / denominator
  let twice := 2 * (numerator % denominator)
  if twice > denominator ∨ (twice = denominator ∧ quotient % 2 = 1) then quotient + 1 else quotient

/-- The fraction `factor · base ^ exponent`. -/
def scaledFraction (factor base : Nat) (exponent : Int) : Nat × Nat :=
  if exponent < 0 then (factor, base.pow (-exponent).toNat) else (factor * base.pow exponent.toNat, 1)

namespace Binary64

/-- The least exponent. -/
def leastExponent : Int := -1074

/-- The exponent of the greatest power of two that is not above a positive fraction. -/
def log2Fraction (numerator denominator : Nat) : Int :=
  let guess : Int := (numerator.log2 : Int) - denominator.log2
  let power := scaledFraction denominator 2 guess
  if power.1 ≤ numerator * power.2 then guess else guess - 1

/-- The number nearest to a positive fraction. -/
def ofFraction (negative : Bool) (numerator denominator : Nat) : Binary64 :=
  let exponent := max leastExponent (log2Fraction numerator denominator - 52)
  let unit := scaledFraction denominator 2 exponent
  let significand := roundedQuotient (numerator * unit.2) unit.1
  let carried := significand = Nat.pow 2 53
  let exponent := if carried then exponent + 1 else exponent
  if exponent > 971 then .infinity negative
  else .finite negative (if carried then Nat.pow 2 52 else significand) exponent

/-- **The number nearest to a decimal one**, `digits · 10 ^ exponent`.  Numbers that many powers of
ten away from the range are recognised by their size alone. -/
def ofDecimal (negative : Bool) (digits : Nat) (exponent : Int) : Binary64 :=
  let size : Int := (Nat.toDigits 10 digits).length + exponent
  if digits = 0 ∨ size < -400 then .finite negative 0 leastExponent
  else if size > 400 then .infinity negative
  else
    let value := scaledFraction digits 10 exponent
    ofFraction negative value.1 value.2

/-- Whether the number is a given integer. -/
def isInteger (x : Binary64) (n : Int) : Bool :=
  match x with
  | .nan | .infinity _ => false
  | .finite negative significand exponent =>
    let value := scaledFraction significand 2 exponent
    let signed : Int := if negative then -value.1 else value.1
    signed == n * value.2

/-- Whether two numbers are equal as numbers: zeros are, whatever their signs, and no number equals
one that is not a number. -/
def numericallyEqual : Binary64 → Binary64 → Bool
  | .infinity a, .infinity b => a == b
  | .finite a m e, .finite b n f => (m == 0 && n == 0) || (a == b && m == n && e == f)
  | _, _ => false

end Binary64

end ScriptFrontend
