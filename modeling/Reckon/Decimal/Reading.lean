/-
  Reckon — numbers read from text.

  A number is written as an optional sign and either `inf`, `infinity` or
  `nan` in any case, or decimal digits with an optional point and an optional
  exponent.  At least one digit stands before or behind the point.  The value
  is the binary number nearest to the decimal.
-/
import Reckon.Decimal

namespace Reckon

/-- The whole number that a list of digits denotes. -/
def ofDigits (cs : List Char) : Nat :=
  Nat.ofDigitChars 10 cs 0

namespace Decimal

/-- A sign at the head of a text, whether it is a minus, and what follows. -/
def splitSign : List Char → Bool × List Char
  | '-' :: cs => (true, cs)
  | '+' :: cs => (false, cs)
  | cs => (false, cs)

/-- The value of an exponent, the end of a number's text: nothing, or an `e`
    and digits with an optional sign. -/
def readExponent? : List Char → Option Int
  | [] => some 0
  | c :: cs =>
    let (negative, digits) := splitSign cs
    if (c = 'e' ∨ c = 'E') ∧ digits ≠ [] ∧ digits.all Char.isDigit then
      some (if negative then -(ofDigits digits : Int) else ofDigits digits)
    else none

/-- A point and the digits behind it at the head of a text, and what follows. -/
def splitFraction : List Char → List Char × List Char
  | '.' :: cs => (cs.takeWhile Char.isDigit, cs.dropWhile Char.isDigit)
  | cs => ([], cs)

/-- The decimal that a text without a sign denotes. -/
def read? (cs : List Char) : Option Decimal :=
  let whole := cs.takeWhile Char.isDigit
  let (fraction, rest) := splitFraction (cs.dropWhile Char.isDigit)
  if whole = [] ∧ fraction = [] then none
  else (readExponent? rest).map fun e => ⟨ofDigits (whole ++ fraction), e - fraction.length⟩

end Decimal

/-- Why a text is not a number. -/
inductive NumberFault where
  | empty
  | malformed
deriving DecidableEq

/-- What is wrong with a text that is not a number. -/
def NumberFault.message : NumberFault → String
  | empty => "cannot parse float from empty string"
  | malformed => "invalid float literal"

namespace Binary64

/-- The number that a text without a sign denotes. -/
def readUnsigned? (negative : Bool) (cs : List Char) : Option Binary64 :=
  let lower := cs.map Char.toLower
  if lower = "nan".toList then some nan
  else if lower = "inf".toList ∨ lower = "infinity".toList then some (infinite negative)
  else (Decimal.read? cs).map (ofDecimal negative)

/-- The number that a text denotes. -/
def read (text : String) : Except NumberFault Binary64 :=
  let (negative, cs) := Decimal.splitSign text.toList
  match readUnsigned? negative cs with
  | some x => .ok x
  | none => .error (if text.isEmpty then .empty else .malformed)

end Binary64

end Reckon
