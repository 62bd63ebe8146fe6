/-
  Reckon — the text of a number.

  A number is written with the fewest digits that are read back as itself
  (`Magnitude.shortest`), positionally, however large or small it is.
  Every magnitude is a decimal exactly, with at most 1074 places
  (`Magnitude.exact`); shorter ones are found by dropping digits from it.
-/
import Reckon.Decimal

namespace Reckon

attribute [local instance] natPow

/-- The number of decimal digits of a number below 2^9000.  The binary
    logarithm times 0.30102 is at most one too small for the decimal one. -/
def decimalLength (n : Nat) : Nat :=
  let length := n.log2 * 30102 / 100000 + 1
  if n < 10 ^ length then length else length + 1

namespace Magnitude

/-- A magnitude as a decimal, exactly: 2^-1074 is 5^1074 times 10^-1074. -/
def exact (m : Magnitude) : Decimal :=
  ⟨m.units * 5 ^ (1074 : Nat), -1074⟩

/-- The decimal with `dropped` digits less than the exact one that is nearest
    to a magnitude among its two neighbours which are read back as it; of two
    equally near the greater one. -/
def shortened? (m : Magnitude) (dropped : Nat) : Option Decimal :=
  let exact := m.exact
  let grid := 10 ^ dropped
  let below := exact.coefficient / grid
  let beyond := exact.coefficient % grid
  let candidates := if 2 * beyond < grid then [below, below + 1] else [below + 1, below]
  (candidates.map fun c => ⟨c, exact.exponent + dropped⟩).find? fun d => d.nearest? = some m

/-- The decimal with the fewest digits that is read back as a magnitude, and
    the nearest to it among those.  Seventeen digits are always enough. -/
def shortest (m : Magnitude) : Decimal :=
  let length := decimalLength m.exact.coefficient
  ((List.range 17).findSome? fun n => m.shortened? (length - (n + 1))).getD m.exact

end Magnitude

/-- The text of a number: the fewest digits that are read back as the same
    number, without an exponent.  A zero keeps its sign. -/
def Binary64.text : Binary64 → String
  | nan => "NaN"
  | infinite negative => if negative then "-inf" else "inf"
  | finite negative m =>
    String.ofList (if negative then '-' :: m.shortest.chars else m.shortest.chars)

end Reckon
