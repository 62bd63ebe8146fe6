/-
  Reckon — decimal numbers and the binary numbers nearest to them.

  A decimal is a coefficient times a power of ten.

  * `nearest?` is the magnitude nearest to a decimal, none if it is out of
    range, and `Binary64.ofDecimal` that magnitude with a sign;
  * `chars` writes a decimal without an exponent: all digits before the
    point, and as many behind it as are needed.
-/
import Reckon.Binary64

namespace Reckon

attribute [local instance] natPow

/-- The decimal number `coefficient * 10 ^ exponent`. -/
structure Decimal where
  coefficient : Nat
  exponent : Int
deriving DecidableEq

namespace Decimal

/-- The magnitude nearest to a decimal, of two equally near the even one.
    From 10^400 on every decimal is out of range.  One that is below 10^-400,
    which its binary logarithm shows, is nearest to zero, so that no great
    power of ten is ever computed. -/
def nearest? (d : Decimal) : Option Magnitude :=
  if d.coefficient = 0 then some .zero
  else match d.exponent with
    | .ofNat e =>
      if 400 ≤ e then none
      else Magnitude.round (d.coefficient * 10 ^ e * Binary64.oneUnits) 1
    | .negSucc e =>
      if d.coefficient.log2 + 400 < e + 1 then some .zero
      else Magnitude.round (d.coefficient * Binary64.oneUnits) (10 ^ (e + 1))

/-- The digits of a fraction without the zeros at its end. -/
def dropFinalZeros (fraction : List Char) : List Char :=
  (fraction.reverse.dropWhile (· == '0')).reverse

/-- The positional notation of a decimal: at least one digit before the
    point, no zeros at the end of the fraction, and no point without one. -/
def chars (d : Decimal) : List Char :=
  let digits := Nat.toDigits 10 d.coefficient
  match d.exponent with
  | .ofNat e => if d.coefficient = 0 then digits else digits ++ List.replicate e '0'
  | .negSucc e =>
    let padded := List.replicate (e + 2 - digits.length) '0' ++ digits
    let (whole, fraction) := padded.splitAt (padded.length - (e + 1))
    match dropFinalZeros fraction with
    | [] => whole
    | digits => whole ++ '.' :: digits

end Decimal

/-- The number nearest to a decimal, with the given sign; an infinity if it
    is out of range. -/
def Binary64.ofDecimal (negative : Bool) (d : Decimal) : Binary64 :=
  match d.nearest? with
  | some m => finite negative m
  | none => infinite negative

end Reckon
