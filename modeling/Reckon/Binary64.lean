/-
  Reckon — the numbers of a formula.

  A number is a binary floating-point number of 64 bits: not a number, an
  infinity, or a signed magnitude.  A magnitude counts units of 2^-1074, the
  least positive number, and has at most 53 significant bits (`Representable`).

  * `Magnitude.round n d` is the magnitude nearest to `n / d` units, a half
    going to the even neighbour, or none if that is out of range;
  * `neg`, `add`, `sub`, `mul` and `div` compute exactly and round once;
  * `same` compares values: the two zeros are the same, and not a number is
    not the same as anything.
-/

namespace Reckon

/-- Powers of whole numbers as the core library has them, so that what follows
    means the same whatever else is imported. -/
@[reducible] def natPow : Pow Nat Nat := instPowNat

attribute [local instance] natPow

/-! ## Magnitudes -/

/-- The units in 2^1024: every magnitude is below it. -/
def unitBound : Nat := 2 ^ (2098 : Nat)

/-- The numbers of units that a magnitude can have: those below the bound
    with at most 53 significant bits. -/
def Representable (u : Nat) : Prop :=
  u < unitBound ∧ ∃ m e : Nat, m < 2 ^ (53 : Nat) ∧ u = m * 2 ^ e

/-- The absolute value of a finite number, in units of 2^-1074. -/
structure Magnitude where
  units : Nat
  representable : Representable units
deriving DecidableEq

/-- The whole number nearest to `n / d`; of two equally near the even one. -/
def roundHalfEven (n d : Nat) : Nat :=
  let q := n / d
  let r := n % d
  if 2 * r < d then q else if d < 2 * r then q + 1 else q + q % 2

/-- Rounding goes up by less than one. -/
theorem roundHalfEven_le (n d : Nat) : roundHalfEven n d ≤ n / d + 1 := by
  have := Nat.mod_lt (n / d) (y := 2) (by decide)
  simp only [roundHalfEven]
  split
  · omega
  · split <;> omega

namespace Magnitude

theorem unitBound_pos : 0 < unitBound := by
  rw [unitBound]
  apply Nat.two_pow_pos

theorem representable_zero : Representable 0 :=
  ⟨unitBound_pos, 0, 0, by simp⟩

/-- Nothing. -/
def zero : Magnitude := ⟨0, representable_zero⟩

/-- The bits of `n / d` units that do not fit into a significand. -/
def excess (n d : Nat) : Nat :=
  (n / d).log2 - 52

/-- Without the excess bits at most 53 are left, or 2^53 itself. -/
theorem roundHalfEven_excess_le (n d : Nat) :
    roundHalfEven n (d * 2 ^ excess n d) ≤ 2 ^ (53 : Nat) := by
  refine Nat.le_trans (roundHalfEven_le _ _) (Nat.succ_le_of_lt ?_)
  rw [← Nat.div_div_eq_div_mul, Nat.div_lt_iff_lt_mul (Nat.two_pow_pos _), ← Nat.pow_add]
  exact Nat.lt_of_lt_of_le Nat.lt_log2_self
    (Nat.pow_le_pow_right (by decide) (by unfold excess; omega))

/-- 2^53 is the only number of 54 bits that a shifted significand can be. -/
theorem representable_of_le {k e : Nat} (hk : k ≤ 2 ^ (53 : Nat)) (h : k * 2 ^ e < unitBound) :
    Representable (k * 2 ^ e) := by
  refine ⟨h, ?_⟩
  rcases Nat.lt_or_eq_of_le hk with hk | rfl
  · exact ⟨k, e, hk, rfl⟩
  · exact ⟨2 ^ (52 : Nat), e + 1, Nat.pow_lt_pow_right (by decide) (by decide), by
      rw [← Nat.pow_add, ← Nat.pow_add]; congr 1; omega⟩

/-- The magnitude nearest to `n / d` units, of two equally near the one with
    an even significand; none if it would reach 2^1024. -/
def round (n d : Nat) : Option Magnitude :=
  let e := excess n d
  let k := roundHalfEven n (d * 2 ^ e)
  if h : k * 2 ^ e < unitBound then
    some ⟨k * 2 ^ e, representable_of_le (roundHalfEven_excess_le n d) h⟩
  else none

end Magnitude

/-! ## Numbers -/

/-- A binary floating-point number of 64 bits. -/
inductive Binary64 where
  /-- not a number -/
  | nan
  | infinite (negative : Bool)
  | finite (negative : Bool) (magnitude : Magnitude)
deriving DecidableEq

namespace Binary64

/-- The units in 1. -/
def oneUnits : Nat := 2 ^ (1074 : Nat)

/-- Whether a value is an actual number. -/
def isFinite : Binary64 → Bool
  | finite _ _ => true
  | _ => false

/-- Whether a value is a zero of either sign. -/
def isZero : Binary64 → Bool
  | finite _ m => m.units == 0
  | _ => false

/-- Whether two values are equal as numbers: the sign of a zero makes no
    difference, and not a number differs from everything, itself included. -/
def same : Binary64 → Binary64 → Bool
  | infinite s, infinite t => s == t
  | finite s a, finite t b => a.units == b.units && (s == t || a.units == 0)
  | _, _ => false

/-- The number nearest to `n / d` units, with the given sign; an infinity if
    that is out of range. -/
def rounded (negative : Bool) (n d : Nat) : Binary64 :=
  match Magnitude.round n d with
  | some m => finite negative m
  | none => infinite negative

/-- The units of a magnitude with a sign. -/
def signed (negative : Bool) (m : Magnitude) : Int :=
  if negative then -(m.units : Int) else m.units

/-- The negation turns the sign, that of a zero too. -/
def neg : Binary64 → Binary64
  | nan => nan
  | infinite s => infinite (!s)
  | finite s m => finite (!s) m

@[simp] theorem isFinite_neg (x : Binary64) : x.neg.isFinite = x.isFinite := by
  cases x <;> rfl

/-- The sum.  An exact zero is negative only if both terms are. -/
def add : Binary64 → Binary64 → Binary64
  | nan, _ | _, nan => nan
  | infinite s, infinite t => if s = t then infinite s else nan
  | infinite s, finite _ _ => infinite s
  | finite _ _, infinite t => infinite t
  | finite s a, finite t b =>
    let sum := signed s a + signed t b
    if sum = 0 then finite (s && t) .zero else rounded (decide (sum < 0)) sum.natAbs 1

/-- The difference. -/
def sub (x y : Binary64) : Binary64 :=
  add x y.neg

/-- The product.  Its sign is negative if just one factor's is. -/
def mul : Binary64 → Binary64 → Binary64
  | nan, _ | _, nan => nan
  | infinite s, infinite t => infinite (s ^^ t)
  | infinite s, finite t b => if b.units = 0 then nan else infinite (s ^^ t)
  | finite s a, infinite t => if a.units = 0 then nan else infinite (s ^^ t)
  | finite s a, finite t b => rounded (s ^^ t) (a.units * b.units) oneUnits

/-- The quotient.  Its sign is negative if just one operand's is. -/
def div : Binary64 → Binary64 → Binary64
  | nan, _ | _, nan => nan
  | infinite _, infinite _ => nan
  | infinite s, finite t _ => infinite (s ^^ t)
  | finite s _, infinite t => finite (s ^^ t) .zero
  | finite s a, finite t b =>
    if b.units = 0 then if a.units = 0 then nan else infinite (s ^^ t)
    else rounded (s ^^ t) (a.units * oneUnits) b.units

end Binary64

end Reckon
