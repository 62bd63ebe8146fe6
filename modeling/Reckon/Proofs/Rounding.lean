/-
  Reckon — the magnitude nearest to a decimal.

  * `roundUnits` is what a fraction is rounded to, in or out of range;
  * `round_scale` and `round_units`: rounding depends on the value only, and
    leaves a magnitude as it is;
  * `nearest?_eq_round`: the shortcuts for very great and very small decimals
    give what rounding gives, so decimals of the same value have the same
    nearest magnitude (`Decimal.SameValue.nearest?_eq`);
  * `nearest?_shortest`: the magnitude that is nearest to the shortest decimal
    of a magnitude is this magnitude.
-/
import Reckon.Decimal.Shortest
import Mathlib

namespace Reckon

/-! ## Rounding -/

theorem roundHalfEven_scale {c : Nat} (hc : 0 < c) (n d : Nat) :
    roundHalfEven (n * c) (d * c) = roundHalfEven n d := by
  have hlt : 2 * (n % d * c) < d * c ↔ 2 * (n % d) < d := by
    rw [← Nat.mul_assoc, Nat.mul_lt_mul_right hc]
  have hgt : d * c < 2 * (n % d * c) ↔ d < 2 * (n % d) := by
    rw [← Nat.mul_assoc, Nat.mul_lt_mul_right hc]
  simp only [roundHalfEven, Nat.mul_div_mul_right _ _ hc, Nat.mul_mod_mul_right, hlt, hgt]

theorem le_roundHalfEven (n d : Nat) : n / d ≤ roundHalfEven n d := by
  simp only [roundHalfEven]
  split
  · exact le_rfl
  · split <;> omega

theorem roundHalfEven_mul {d : Nat} (hd : 0 < d) (k : Nat) : roundHalfEven (k * d) d = k := by
  simp only [roundHalfEven, Nat.mul_mod_left, Nat.mul_div_left _ hd, Nat.mul_zero, hd, if_true]

namespace Magnitude

/-- The units that `n / d` units are rounded to, in or out of range. -/
def roundUnits (n d : Nat) : Nat :=
  roundHalfEven n (d * 2 ^ excess n d) * 2 ^ excess n d

theorem ext {m m' : Magnitude} (h : m.units = m'.units) : m = m' := by
  cases m
  cases m'
  cases h
  rfl

theorem round_eq (n d : Nat) :
    round n d = if h : roundUnits n d < unitBound then
      some ⟨roundUnits n d, representable_of_le (roundHalfEven_excess_le n d) h⟩ else none := rfl

theorem round_eq_some {n d : Nat} {m : Magnitude} (h : roundUnits n d = m.units) :
    round n d = some m := by
  have hlt : roundUnits n d < unitBound := h ▸ m.representable.1
  rw [round_eq, dif_pos hlt]
  exact congrArg some (ext h)

theorem round_eq_none {n d : Nat} (h : unitBound ≤ roundUnits n d) : round n d = none := by
  rw [round_eq, dif_neg (Nat.not_lt.2 h)]

theorem round_congr {n d n' d' : Nat} (h : roundUnits n d = roundUnits n' d') :
    round n d = round n' d' := by
  rcases Nat.lt_or_ge (roundUnits n' d') unitBound with hlt | hge
  · obtain ⟨m, hm⟩ : ∃ m : Magnitude, roundUnits n' d' = m.units :=
      ⟨⟨_, representable_of_le (roundHalfEven_excess_le n' d') hlt⟩, rfl⟩
    rw [round_eq_some hm, round_eq_some (h.trans hm)]
  · rw [round_eq_none hge, round_eq_none (h ▸ hge)]

/-- **Rounding depends on the value only.** -/
theorem round_scale {c : Nat} (hc : 0 < c) (n d : Nat) : round (n * c) (d * c) = round n d := by
  refine round_congr ?_
  have hexcess : excess (n * c) (d * c) = excess n d := by
    rw [excess, excess, Nat.mul_div_mul_right _ _ hc]
  rw [roundUnits, roundUnits, hexcess, Nat.mul_right_comm d, roundHalfEven_scale hc]

theorem pow_excess_dvd {u : Nat} (h : Representable u) : 2 ^ excess u 1 ∣ u := by
  obtain ⟨-, k, e, hk, rfl⟩ := h
  by_cases hu : k * 2 ^ e = 0
  · rw [hu]
    exact dvd_zero _
  · have hlt : k * 2 ^ e < 2 ^ (53 + e) := by
      rw [Nat.pow_add]
      exact Nat.mul_lt_mul_of_pos_right hk (Nat.two_pow_pos e)
    have hlog : (k * 2 ^ e).log2 < 53 + e := (Nat.log2_lt hu).2 hlt
    refine Dvd.dvd.mul_left (Nat.pow_dvd_pow 2 ?_) k
    rw [excess, Nat.div_one]
    omega

/-- **A magnitude is nearest to itself.** -/
theorem round_units (m : Magnitude) : round m.units 1 = some m := by
  refine round_eq_some ?_
  obtain ⟨k, hk⟩ := pow_excess_dvd m.representable
  unfold roundUnits
  generalize excess m.units 1 = e at hk
  rw [Nat.one_mul, hk, Nat.mul_comm (2 ^ e), roundHalfEven_mul (Nat.two_pow_pos e)]

theorem round_eq_none_of_le {n d : Nat} (hd : 0 < d) (h : unitBound * d ≤ n) :
    round n d = none := by
  refine round_eq_none ?_
  have hq : unitBound ≤ n / d := (Nat.le_div_iff_mul_le hd).2 h
  have hne : n / d ≠ 0 := by
    have := unitBound_pos
    omega
  have hlog : 2098 ≤ (n / d).log2 := by
    rw [Nat.le_log2 hne, ← unitBound]
    exact hq
  have hexcess : excess n d + 52 = (n / d).log2 := by
    rw [excess]
    omega
  -- at least 53 bits are left, the first of which is not zero
  have hpow : 2 ^ 52 * 2 ^ excess n d ≤ n / d := by
    rw [← Nat.pow_add, Nat.add_comm, hexcess]
    exact Nat.log2_self_le hne
  have hk : 2 ^ 52 ≤ roundHalfEven n (d * 2 ^ excess n d) := by
    refine le_trans ?_ (le_roundHalfEven _ _)
    rw [← Nat.div_div_eq_div_mul]
    exact (Nat.le_div_iff_mul_le (Nat.two_pow_pos _)).2 hpow
  calc unitBound = 2 ^ 2098 := by rw [unitBound]
    _ ≤ 2 ^ (n / d).log2 := Nat.pow_le_pow_right (by decide) hlog
    _ = 2 ^ 52 * 2 ^ excess n d := by rw [← hexcess, Nat.pow_add, Nat.mul_comm]
    _ ≤ roundUnits n d := Nat.mul_le_mul_right _ hk

theorem round_eq_zero_of_lt {n d : Nat} (h : 2 * n < d) : round n d = some zero := by
  refine round_eq_some ?_
  have hq : n / d = 0 := Nat.div_eq_of_lt (by omega)
  have hexcess : excess n d = 0 := by
    rw [excess, hq]
    rfl
  have hr : n % d = n := Nat.mod_eq_of_lt (by omega)
  simp only [roundUnits, hexcess, Nat.pow_zero, Nat.mul_one, roundHalfEven, hq, hr, if_pos h]
  rfl

end Magnitude

/-! ## Decimals -/

namespace Decimal

open Magnitude

def numerator (d : Decimal) : Nat :=
  d.coefficient * 10 ^ d.exponent.toNat

def denominator (d : Decimal) : Nat :=
  10 ^ (-d.exponent).toNat

theorem denominator_pos (d : Decimal) : 0 < d.denominator :=
  Nat.pow_pos (by decide)

/-- Whether two decimals are the same number. -/
def SameValue (d d' : Decimal) : Prop :=
  d.numerator * d'.denominator = d'.numerator * d.denominator

theorem two_pow_le_ten_pow {k e : Nat} (h : k ≤ 3 * e) : 2 ^ k ≤ 10 ^ e := by
  refine (Nat.pow_le_pow_right (by decide) h).trans ?_
  rw [Nat.pow_mul]
  exact Nat.pow_le_pow_left (by decide) e

theorem unitBound_le {c e : Nat} (hc : c ≠ 0) (he : 400 ≤ e) :
    unitBound ≤ c * 10 ^ e * Binary64.oneUnits := by
  have hten : 2 ^ 1024 ≤ 10 ^ e := two_pow_le_ten_pow (by omega)
  calc unitBound = 2 ^ 1024 * Binary64.oneUnits := by
        rw [unitBound, Binary64.oneUnits, ← Nat.pow_add 2 1024 1074]
    _ ≤ 10 ^ e * Binary64.oneUnits := Nat.mul_le_mul_right _ hten
    _ ≤ c * 10 ^ e * Binary64.oneUnits :=
      Nat.mul_le_mul_right _ (Nat.le_mul_of_pos_left _ (Nat.pos_of_ne_zero hc))

theorem two_mul_lt_ten_pow {c k e : Nat} (h : c.log2 + k + 2 ≤ 3 * e) :
    2 * (c * 2 ^ k) < 10 ^ e := by
  have hc : c < 2 ^ (c.log2 + 1) := Nat.lt_log2_self
  calc 2 * (c * 2 ^ k) = c * 2 ^ (k + 1) := by rw [Nat.pow_succ]; ring
    _ < 2 ^ (c.log2 + 1) * 2 ^ (k + 1) := Nat.mul_lt_mul_of_pos_right hc (Nat.two_pow_pos _)
    _ = 2 ^ (c.log2 + 1 + (k + 1)) := (Nat.pow_add ..).symm
    _ ≤ 10 ^ e := two_pow_le_ten_pow (by omega)

theorem oneUnits_lt {c e : Nat} (h : c.log2 + 400 < e) :
    2 * (c * Binary64.oneUnits) < 10 ^ e := by
  rw [Binary64.oneUnits]
  exact two_mul_lt_ten_pow (by omega)

/-- **The nearest magnitude is what rounding gives**, whether it is computed
    or the decimal is seen to be out of range or nearest to zero. -/
theorem nearest?_eq_round (d : Decimal) :
    d.nearest? = round (d.numerator * Binary64.oneUnits) d.denominator := by
  obtain ⟨c, e⟩ := d
  unfold nearest?
  split
  · rename_i hc
    have hzero : numerator ⟨c, e⟩ = 0 := by
      rw [numerator, show c = 0 from hc, Nat.zero_mul]
    rw [hzero, Nat.zero_mul]
    exact (round_eq_zero_of_lt (denominator_pos _)).symm
  · rename_i hc
    cases e with
    | ofNat e =>
      have hden : denominator ⟨c, .ofNat e⟩ = 1 := by
        rw [denominator, Int.toNat_eq_zero.2 (by simp), Nat.pow_zero]
      rw [hden]
      dsimp only
      split
      · rename_i he
        refine (round_eq_none_of_le Nat.one_pos ?_).symm
        rw [Nat.mul_one]
        exact unitBound_le hc he
      · rfl
    | negSucc e =>
      have hnum : numerator ⟨c, .negSucc e⟩ = c := by
        rw [numerator, Int.toNat_negSucc, Nat.pow_zero, Nat.mul_one]
      have hden : denominator ⟨c, .negSucc e⟩ = 10 ^ (e + 1) := rfl
      rw [hnum, hden]
      dsimp only
      split
      · rename_i he
        exact (round_eq_zero_of_lt (oneUnits_lt he)).symm
      · rfl

theorem SameValue.nearest?_eq {d d' : Decimal} (h : d.SameValue d') :
    d.nearest? = d'.nearest? := by
  rw [nearest?_eq_round, nearest?_eq_round]
  generalize Binary64.oneUnits = one
  rw [← round_scale d'.denominator_pos,
    ← round_scale d.denominator_pos (d'.numerator * _), Nat.mul_comm d'.denominator]
  congr 1
  rw [Nat.mul_right_comm, h, Nat.mul_right_comm]

end Decimal

namespace Magnitude

open Decimal

theorem nearest?_exact (m : Magnitude) : m.exact.nearest? = some m := by
  have hnum : m.exact.numerator = m.units * 5 ^ 1074 := by
    rw [numerator, exact]
    exact Nat.mul_one _
  have hden : m.exact.denominator = 1 * (5 ^ 1074 * 2 ^ 1074) := by
    have hexponent : (-m.exact.exponent).toNat = 1074 := rfl
    rw [Nat.one_mul, ← Nat.mul_pow, denominator, hexponent]
  rw [nearest?_eq_round, hnum, hden, Binary64.oneUnits, Nat.mul_assoc,
    round_scale (Nat.mul_pos (Nat.pow_pos (by decide)) (Nat.two_pow_pos _)), round_units]

/-- **The shortest decimal of a magnitude is read back.** -/
theorem nearest?_shortest (m : Magnitude) : m.shortest.nearest? = some m := by
  unfold shortest
  dsimp only
  cases h : (List.range 17).findSome? fun n =>
      m.shortened? (decimalLength m.exact.coefficient - (n + 1)) with
  | none => exact nearest?_exact m
  | some d =>
    obtain ⟨n, -, hn⟩ := List.exists_of_findSome?_eq_some h
    have := List.find?_some hn
    simpa using this

end Magnitude

end Reckon
