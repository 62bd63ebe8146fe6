/-
  Reckon — what is the same has the same values.

  Two numbers are the same if they are equal but for the sign of a zero, and
  not a number is the same as nothing.

  * `Binary64.canonical` drops the sign of a zero.  Arithmetic cannot tell a
    number from its canonical one but by the sign of a zero, except that it can
    be divided by (`canonical_onNumbers`);
  * `Agree`: outcomes with values in a relation, or with errors of one kind;
  * `agree_evaluate`: formulas with related leaves, where names have related
    values, have such outcomes;
  * `same_iff_eq`: what can be written is the same as itself only;
  * `evaluate_respects_same` puts this together.
-/
import Reckon.Proofs.Evaluation
import Reckon.Proofs.Leaves

namespace Reckon

/-! ## Zeros -/

namespace Binary64

/-- A number with the sign of a zero dropped. -/
def canonical (x : Binary64) : Binary64 :=
  if x.isZero then finite false .zero else x

theorem canonical_of_not_isZero {x : Binary64} (h : x.isZero = false) : x.canonical = x := by
  rw [canonical, h]
  rfl

/-- A number is a zero, or it is canonical. -/
theorem eq_zero_or_canonical (x : Binary64) :
    (∃ s, x = finite s .zero) ∨ x.isZero = false ∧ x.canonical = x := by
  cases hx : x.isZero with
  | false => exact .inr ⟨rfl, canonical_of_not_isZero hx⟩
  | true =>
    cases x with
    | nan | infinite => cases hx
    | finite s m =>
      have hm : m = .zero := Magnitude.ext (beq_iff_eq.1 hx)
      exact .inl ⟨s, by rw [hm]⟩

@[simp] theorem isZero_canonical (x : Binary64) : x.canonical.isZero = x.isZero := by
  obtain ⟨s, rfl⟩ | ⟨-, hx⟩ := x.eq_zero_or_canonical
  · rfl
  · rw [hx]

@[simp] theorem isFinite_canonical (x : Binary64) : x.canonical.isFinite = x.isFinite := by
  obtain ⟨s, rfl⟩ | ⟨-, hx⟩ := x.eq_zero_or_canonical
  · rfl
  · rw [hx]

theorem isZero_eq_of_same {x y : Binary64} (h : x.same y = true) : x.isZero = y.isZero := by
  cases x with
  | nan => cases h
  | infinite s =>
    cases y with
    | infinite t => rfl
    | nan | finite => cases h
  | finite s a =>
    cases y with
    | nan | infinite => cases h
    | finite t b =>
      rw [same, Bool.and_eq_true, beq_iff_eq] at h
      rw [isZero, isZero, h.1]

theorem eq_of_same {x y : Binary64} (h : x.same y = true) (hx : x.isZero = false) : x = y := by
  cases x with
  | nan => cases h
  | infinite s =>
    cases y with
    | infinite t => rw [beq_iff_eq.1 h]
    | nan | finite => cases h
  | finite s a =>
    cases y with
    | nan | infinite => cases h
    | finite t b =>
      rw [isZero] at hx
      rw [same, hx, Bool.or_false, Bool.and_eq_true, beq_iff_eq, beq_iff_eq] at h
      rw [Magnitude.ext h.1, h.2]

theorem same_self {x : Binary64} (h : x ≠ nan) : x.same x = true := by
  cases x with
  | nan => exact absurd rfl h
  | infinite s => exact beq_self_eq_true s
  | finite s a => simp only [same, beq_self_eq_true, Bool.true_or, Bool.and_self]

/-- **Numbers are the same** if the canonical ones are equal and they are
    numbers at all. -/
theorem same_iff {x y : Binary64} : x.same y = true ↔ x.canonical = y.canonical ∧ x ≠ nan := by
  constructor
  · intro h
    refine ⟨?_, fun hx => by subst hx; cases h⟩
    have hzero := isZero_eq_of_same h
    cases hx : x.isZero with
    | true => rw [canonical, canonical, ← hzero, hx, if_pos rfl, if_pos rfl]
    | false => rw [eq_of_same h hx]
  · rintro ⟨hcanonical, hx⟩
    have hzero : x.isZero = y.isZero := by
      rw [← isZero_canonical x, hcanonical, isZero_canonical]
    obtain ⟨s, rfl⟩ | ⟨hne, hself⟩ := x.eq_zero_or_canonical
    · obtain ⟨t, rfl⟩ | ⟨hy, -⟩ := y.eq_zero_or_canonical
      · cases s <;> cases t <;> rfl
      · rw [hy] at hzero
        cases hzero
    · rw [hself, canonical_of_not_isZero (hzero ▸ hne)] at hcanonical
      exact hcanonical ▸ same_self hx

/-! ### Arithmetic -/

theorem add_comm (x y : Binary64) : x.add y = y.add x := by
  cases x with
  | nan => cases y <;> rfl
  | infinite s =>
    cases y with
    | nan | finite => rfl
    | infinite t => by_cases h : s = t <;> simp [add, h, eq_comm]
  | finite s a =>
    cases y with
    | nan | infinite => rfl
    | finite t b => rw [add, add, Int.add_comm, Bool.and_comm]

theorem mul_comm (x y : Binary64) : x.mul y = y.mul x := by
  cases x <;> cases y <;> simp [mul, Bool.xor_comm, Nat.mul_comm]

theorem units_zero : Magnitude.zero.units = 0 := rfl

theorem oneUnits_pos : 0 < oneUnits := by
  rw [oneUnits]
  apply Nat.two_pow_pos

theorem signed_zero (s : Bool) : signed s .zero = 0 := by
  cases s <;> rfl

theorem rounded_zero (s : Bool) {d : Nat} (hd : 0 < d) : rounded s 0 d = finite s .zero := by
  have hlt : 2 * 0 < d := hd
  unfold rounded
  simp only [Magnitude.round_eq_zero_of_lt hlt]

theorem canonical_zero_add (s : Bool) (y : Binary64) :
    ((finite s .zero).add y).canonical = ((finite false .zero).add y).canonical := by
  cases y with
  | nan | infinite => rfl
  | finite t b =>
    rw [add, add, signed_zero, signed_zero]
    split <;> rfl

theorem canonical_zero_mul (s : Bool) (y : Binary64) :
    ((finite s .zero).mul y).canonical = ((finite false .zero).mul y).canonical := by
  cases y with
  | nan | infinite => rfl
  | finite t b =>
    rw [mul, mul, units_zero, Nat.zero_mul, rounded_zero _ oneUnits_pos,
      rounded_zero _ oneUnits_pos]
    rfl

theorem canonical_zero_div (s : Bool) {y : Binary64} (hy : y.isZero = false) :
    ((finite s .zero).div y).canonical = ((finite false .zero).div y).canonical := by
  cases y with
  | nan | infinite => rfl
  | finite t b =>
    have hb : b.units ≠ 0 := beq_eq_false_iff_ne.1 hy
    have hpos : 0 < b.units := Nat.pos_of_ne_zero hb
    rw [div, div, if_neg hb, if_neg hb, units_zero, Nat.zero_mul, rounded_zero _ hpos,
      rounded_zero _ hpos]
    rfl

/-- What does not tell the zeros apart on its left does not tell a number from
    its canonical one. -/
theorem canonical_left {f : Binary64 → Binary64} (hf : ∀ s, (f (finite s .zero)).canonical =
    (f (finite false .zero)).canonical) (x : Binary64) :
    (f x).canonical = (f x.canonical).canonical := by
  obtain ⟨s, rfl⟩ | ⟨-, hx⟩ := x.eq_zero_or_canonical
  · exact hf s
  · rw [hx]

theorem canonical_neg {x x' : Binary64} (h : x.canonical = x'.canonical) :
    x.neg.canonical = x'.neg.canonical := by
  have hneg := canonical_left (f := neg) fun _ => rfl
  rw [hneg x, h, ← hneg]

section Commutative

variable {f : Binary64 → Binary64 → Binary64} (hcomm : ∀ x y, f x y = f y x)
  (hzero : ∀ s y, (f (finite s .zero) y).canonical = (f (finite false .zero) y).canonical)
include hcomm hzero

theorem canonical_commutative {x x' y y' : Binary64} (hx : x.canonical = x'.canonical)
    (hy : y.canonical = y'.canonical) : (f x y).canonical = (f x' y').canonical := by
  have hleft (x y : Binary64) := canonical_left (f := (f · y)) (hzero · y) x
  calc (f x y).canonical
      _ = (f x.canonical y).canonical := hleft x y
      _ = (f y x'.canonical).canonical := by rw [hx, hcomm]
      _ = (f y.canonical x'.canonical).canonical := hleft y _
      _ = (f x'.canonical y'.canonical).canonical := by rw [hy, hcomm]
      _ = (f x' y'.canonical).canonical := (hleft x' _).symm
      _ = (f y'.canonical x').canonical := by rw [hcomm]
      _ = (f x' y').canonical := by rw [← hleft y', hcomm]

end Commutative

end Binary64

open Binary64

/-- **Arithmetic does not tell zeros apart**, but for dividing by them. -/
theorem BinaryOp.canonical_onNumbers {op : BinaryOp} {x x' y y' : Binary64}
    (hx : x.canonical = x'.canonical) (hy : y.canonical = y'.canonical)
    (hdiv : op = div → y.isZero = false) :
    (op.onNumbers x y).canonical = (op.onNumbers x' y').canonical := by
  cases op with
  | add => exact canonical_commutative Binary64.add_comm canonical_zero_add hx hy
  | sub => exact canonical_commutative Binary64.add_comm canonical_zero_add hx (canonical_neg hy)
  | mul => exact canonical_commutative Binary64.mul_comm canonical_zero_mul hx hy
  | div =>
    have hy' : y'.isZero = false := by
      rw [← isZero_canonical, ← hy, isZero_canonical, hdiv rfl]
    rw [canonical_of_not_isZero (hdiv rfl), canonical_of_not_isZero hy'] at hy
    subst hy
    have hleft := canonical_left (f := (Binary64.div · y)) fun s => canonical_zero_div s hy'
    exact (hleft x).trans (hx ▸ (hleft x').symm)

/-! ## Outcomes -/

/-- An equality of numbers that neglects at most the signs of zeros, and does so
    for finite numbers. -/
structure Equality (R : Binary64 → Binary64 → Prop) : Prop where
  canonical_eq {x y : Binary64} : R x y → x.canonical = y.canonical
  neg {x y : Binary64} : R x y → R x.neg y.neg
  of_finite {x y : Binary64} : x.isFinite = true → x.canonical = y.canonical → R x y

theorem equality_canonical : Equality fun x y => x.canonical = y.canonical where
  canonical_eq := id
  neg := canonical_neg
  of_finite := fun _ => id

theorem equality_same : Equality fun x y => x.same y = true where
  canonical_eq h := (same_iff.1 h).1
  neg {x y} h := by
    obtain ⟨hcanonical, hx⟩ := same_iff.1 h
    refine same_iff.2 ⟨canonical_neg hcanonical, fun hneg => hx ?_⟩
    cases x with
    | nan => rfl
    | infinite | finite => cases hneg
  of_finite hfinite h := same_iff.2 ⟨h, fun hx => by rw [hx] at hfinite; cases hfinite⟩

/-- Outcomes that agree: values in a relation, or errors of one kind. -/
inductive Agree (R : Binary64 → Binary64 → Prop) :
    Except Error Binary64 → Except Error Binary64 → Prop
  | values {x y : Binary64} : R x y → Agree R (.ok x) (.ok y)
  | errors {e e' : Error} : e.kind = e'.kind → Agree R (.error e) (.error e')

section Agreement

variable {R : Binary64 → Binary64 → Prop}

theorem Agree.bind {r r' : Except Error Binary64} {f f' : Binary64 → Except Error Binary64}
    (h : Agree R r r') (hf : ∀ x y, R x y → Agree R (f x) (f' y)) :
    Agree R (r >>= f) (r' >>= f') := by
  cases h with
  | values hxy => exact hf _ _ hxy
  | errors hkind => exact .errors hkind

/-- **Operators agree**: a divisor is looked at before its sign could matter. -/
theorem Equality.agree_compute (hR : Equality R) (op : BinaryOp) {x x' y y' : Binary64}
    (hx : R x x') (hy : R y y') : Agree R (op.compute x y) (op.compute x' y') := by
  have hzero : y.isZero = y'.isZero := by
    rw [← isZero_canonical, hR.canonical_eq hy, isZero_canonical]
  unfold BinaryOp.compute
  rw [← hzero]
  by_cases hdiv : op = .div ∧ y.isZero = true
  · rw [if_pos hdiv, if_pos hdiv]
    exact .errors rfl
  · have hcanonical := BinaryOp.canonical_onNumbers (hR.canonical_eq hx) (hR.canonical_eq hy)
      fun hop => Bool.eq_false_iff.2 fun hy0 => hdiv ⟨hop, hy0⟩
    have hfinite : (op.onNumbers x y).isFinite = (op.onNumbers x' y').isFinite := by
      rw [← isFinite_canonical, hcanonical, isFinite_canonical]
    rw [if_neg hdiv, if_neg hdiv, ← hfinite]
    split
    · exact .values (hR.of_finite ‹_› hcanonical)
    · exact .errors rfl

/-- Names agree if their values do, as only finite ones are let through. -/
theorem Equality.agree_var (hR : Equality R) {v w : Valuation} {name : String}
    (h : (v.get? name).map canonical = (w.get? name).map canonical) :
    Agree R (Operand.value v (.var name)) (Operand.value w (.var name)) := by
  rw [Operand.value, Operand.value, Valuation.get, Valuation.get]
  cases hv : v.get? name with
  | none =>
    cases hw : w.get? name with
    | none => exact .errors rfl
    | some y => rw [hv, hw] at h; cases h
  | some x =>
    cases hw : w.get? name with
    | none => rw [hv, hw] at h; cases h
    | some y =>
      rw [hv, hw, Option.map_some, Option.map_some, Option.some.injEq] at h
      have hfinite : x.isFinite = y.isFinite := by
        rw [← isFinite_canonical, h, isFinite_canonical]
      simp only [ok_bind]
      rw [← hfinite]
      split
      · exact .values (hR.of_finite ‹_› h)
      · exact .errors rfl

/-- **Formulas with leaves that agree** have values that do, or fail alike. -/
theorem Equality.agree_evaluate (hR : Equality R) {related : Operand → Operand → Bool}
    {v w : Valuation} (hleaf : ∀ a b, related a b = true → Agree R (a.value v) (b.value w))
    {f g : Formula} (h : f.alike related g = true) : Agree R (f.evaluate v) (g.evaluate w) := by
  induction f generalizing g with
  | leaf a =>
    cases g with
    | leaf b => exact hleaf a b h
    | negate | binary => cases h
  | negate f ih =>
    cases g with
    | negate g => exact (ih h).bind fun x y hxy => .values (hR.neg hxy)
    | leaf | binary => cases h
  | binary op l r ihl ihr =>
    cases g with
    | binary op' l' r' =>
      rw [Expr.alike, Bool.and_eq_true, Bool.and_eq_true, beq_iff_eq] at h
      obtain ⟨⟨rfl, hl⟩, hr⟩ := h
      exact (ihl hl).bind fun x x' hx => (ihr hr).bind fun y y' hy => hR.agree_compute op hx hy
    | leaf | negate => cases h

end Agreement

/-! ## Valuations and formulas -/

/-- Valuations that are the same have the same names. -/
theorem names_perm_of_same {v w : Valuation} (h : v.same w = true) :
    (v.entries.map Prod.fst).Perm (w.entries.map Prod.fst) := by
  rw [Valuation.same, Bool.and_eq_true, beq_iff_eq, List.all_eq_true] at h
  have hsub : v.entries.map Prod.fst ⊆ w.entries.map Prod.fst := by
    intro name hname
    obtain ⟨⟨_, x⟩, he, rfl⟩ := List.mem_map.1 hname
    obtain ⟨y, hy, -⟩ := (Option.any_eq_true _ _).1 (h.2 _ he)
    exact List.mem_map.2 ⟨_, mem_of_lookup_eq_some hy, rfl⟩
  refine (v.nodup.subperm hsub).perm_of_length_le ?_
  rw [List.length_map, List.length_map]
  exact h.1.ge

/-- **Valuations that are the same** give every name the same value. -/
theorem canonical_get?_of_same {v w : Valuation} (h : v.same w = true) (name : String) :
    (v.get? name).map canonical = (w.get? name).map canonical := by
  have hperm := names_perm_of_same h
  rw [Valuation.same, Bool.and_eq_true, List.all_eq_true] at h
  cases hv : v.get? name with
  | none =>
    have hw : w.get? name = none := by
      rw [Valuation.get?, lookup_eq_none_iff_not_mem] at hv ⊢
      rwa [← hperm.mem_iff]
    rw [hw]
  | some x =>
    obtain ⟨y, hy, hsame⟩ := (Option.any_eq_true _ _).1 (h.2 _ (mem_of_lookup_eq_some hv))
    rw [hy]
    exact congrArg some (same_iff.1 hsame).1

theorem agree_of_same {v w : Valuation} (h : v.same w = true) {a b : Operand}
    (hab : a.same b = true) :
    Agree (fun x y => x.same y = true) (a.value v) (b.value w) := by
  cases a with
  | number x =>
    cases b with
    | number y => exact .values hab
    | var name => cases hab
  | var name =>
    cases b with
    | number y => cases hab
    | var name' =>
      obtain rfl : name = name' := beq_iff_eq.1 hab
      exact equality_same.agree_var (canonical_get?_of_same h name)

/-- An operand with the sign of a zero dropped. -/
def Operand.canonical : Operand → Operand
  | number x => number x.canonical
  | var name => var name

theorem agree_of_canonical {v w : Valuation}
    (h : ∀ name, (v.get? name).map Binary64.canonical = (w.get? name).map Binary64.canonical)
    {a b : Operand} (hab : a.canonical = b.canonical) :
    Agree (fun x y => x.canonical = y.canonical) (a.value v) (b.value w) := by
  cases a with
  | number x =>
    cases b with
    | number y =>
      rw [Operand.canonical, Operand.canonical, Operand.number.injEq] at hab
      exact .values hab
    | var name => cases hab
  | var name =>
    cases b with
    | number y => cases hab
    | var name' =>
      cases hab
      exact equality_canonical.agree_var (h name)

/-- Expressions with the same leaves but for a map are alike. -/
theorem Expr.alike_of_map_eq {α β : Type} [DecidableEq β] {m : α → β} {e e' : Expr α}
    (h : e.map m = e'.map m) : e.alike (fun a b => decide (m a = m b)) e' = true := by
  induction e generalizing e' with
  | leaf a =>
    cases e' with
    | leaf b => exact decide_eq_true (Expr.leaf.inj h)
    | negate | binary => cases h
  | negate e ih =>
    cases e' with
    | negate e' => exact ih (Expr.negate.inj h)
    | leaf | binary => cases h
  | binary op l r ihl ihr =>
    cases e' with
    | binary op' l' r' =>
      obtain ⟨rfl, hl, hr⟩ := Expr.binary.inj h
      rw [Expr.alike, ihl hl, ihr hr, beq_self_eq_true]
      rfl
    | leaf | negate => cases h

/-! ## What can be written -/

theorem Operand.same_iff_eq {a b : Operand} (ha : a.Printable) (hb : b.Printable) :
    a.same b = true ↔ a = b := by
  cases a with
  | number x =>
    cases b with
    | number y =>
      obtain ⟨m, rfl⟩ := ha
      obtain ⟨n, rfl⟩ := hb
      rw [Operand.same, Binary64.same, beq_self_eq_true, Bool.true_or, Bool.and_true, beq_iff_eq]
      constructor
      · intro h
        rw [Magnitude.ext h]
      · intro h
        cases h
        rfl
    | var name => exact iff_of_false (by rintro ⟨⟩) nofun
  | var name =>
    cases b with
    | number y => exact iff_of_false (by rintro ⟨⟩) nofun
    | var name' => rw [Operand.same, beq_iff_eq, Operand.var.injEq]

/-- **What can be written is the same as itself only.** -/
theorem same_iff_eq {f g : Formula} (hf : f.Printable) (hg : g.Printable) :
    Formula.same f g = true ↔ f = g := by
  unfold Formula.same
  induction f generalizing g with
  | leaf a =>
    cases g with
    | leaf b =>
      rw [Expr.alike, Expr.leaf.injEq]
      exact Operand.same_iff_eq (hf a (List.mem_singleton_self a)) (hg b (List.mem_singleton_self b))
    | negate | binary => exact iff_of_false (by rintro ⟨⟩) nofun
  | negate f ih =>
    cases g with
    | negate g =>
      rw [Expr.alike, Expr.negate.injEq]
      exact ih hf hg
    | leaf | binary => exact iff_of_false (by rintro ⟨⟩) nofun
  | binary op l r ihl ihr =>
    cases g with
    | binary op' l' r' =>
      have hl := ihl (fun a ha => hf a (List.mem_append_left _ ha))
        fun a ha => hg a (List.mem_append_left _ ha)
      have hr := ihr (fun a ha => hf a (List.mem_append_right _ ha))
        fun a ha => hg a (List.mem_append_right _ ha)
      rw [Expr.alike, Bool.and_eq_true, Bool.and_eq_true, beq_iff_eq, hl, hr, Expr.binary.injEq,
        and_assoc]
    | leaf | negate => exact iff_of_false (by rintro ⟨⟩) nofun

/-- **What is the same has the same values.**  Formulas that are the same have,
    under valuations that are the same, values that are the same, or they fail
    with errors of one kind.  So they do if they differ in the signs of zeros
    only, there or in the valuations, whatever else is in them.  Of formulas
    that are read, none is the same as another one: they are the same as
    themselves, either way and from one to the next, and such formulas have one
    text, the same variables and the same value or error. -/
theorem evaluate_respects_same :
    (∀ (f g : Formula) (v w : Valuation), Formula.same f g = true → v.same w = true →
      Agree (fun x y => x.same y = true) (f.evaluate v) (g.evaluate w)) ∧
    (∀ (f g : Formula) (v w : Valuation), f.map Operand.canonical = g.map Operand.canonical →
      (∀ name, (v.get? name).map canonical = (w.get? name).map canonical) →
      Agree (fun x y => x.canonical = y.canonical) (f.evaluate v) (g.evaluate w)) ∧
    ∀ (r s t : String) (f g h : Formula), Formula.parse r = .ok f → Formula.parse s = .ok g →
      Formula.parse t = .ok h →
      Formula.same f f = true ∧ (Formula.same f g = true → Formula.same g f = true) ∧
      (Formula.same f g = true → Formula.same g h = true → Formula.same f h = true) ∧
      (Formula.same f g = true → f.text = g.text ∧ Formula.variables f = Formula.variables g ∧
        ∀ v, f.evaluate v = g.evaluate v) := by
  refine ⟨fun f g v w hfg hvw => ?_, fun f g v w hfg hvw => ?_, fun r s t f g h hf hg hh => ?_⟩
  · exact equality_same.agree_evaluate (fun _ _ => agree_of_same hvw) hfg
  · exact equality_canonical.agree_evaluate
      (fun _ _ hab => agree_of_canonical hvw (of_decide_eq_true hab)) (Expr.alike_of_map_eq hfg)
  · replace hf := printable_of_parse hf
    replace hg := printable_of_parse hg
    replace hh := printable_of_parse hh
    rw [same_iff_eq hf hf, same_iff_eq hf hg, same_iff_eq hg hf, same_iff_eq hg hh,
      same_iff_eq hf hh]
    refine ⟨rfl, Eq.symm, Eq.trans, ?_⟩
    rintro rfl
    exact ⟨rfl, rfl, fun _ => rfl⟩

/-- Zeros as divisors, beside a number that is none, and in parentheses. -/
theorem evaluate_respects_same_zeros :
    let zero (negative : Bool) : Binary64 := .finite negative .zero
    let f (negative : Bool) : Formula := .binary .div (.leaf (.var "x"))
      (.leaf (.number (zero negative)))
    let g (negative : Bool) : Formula := .binary .mul (.leaf (.number .nan)) (f negative)
    let v (negative : Bool) := Valuation.empty.set "x" (zero negative)
    Formula.same (f false) (f true) = true ∧ (v true).same (v false) = true ∧
      Agree (fun x y => x.same y = true) ((f false).evaluate (v true))
        ((f true).evaluate (v false)) ∧
      (g false).map Operand.canonical = (g true).map Operand.canonical ∧
      (∀ name, ((v true).get? name).map canonical = ((v false).get? name).map canonical) ∧
      Agree (fun x y => x.canonical = y.canonical) ((g false).evaluate (v true))
        ((g true).evaluate (v false)) ∧
      ∃ e, Formula.parse "-x" = .ok e ∧ Formula.parse "(-x)" = .ok e ∧ Formula.same e e = true := by
  intro zero f g v
  obtain ⟨hsame, hcanonical, hread⟩ := evaluate_respects_same
  have hf : Formula.same (f false) (f true) = true := rfl
  have hv : (v true).same (v false) = true := rfl
  have hget (name : String) := canonical_get?_of_same hv name
  have hx : Formula.parse "-x" = .ok (.negate (.leaf (.var "x"))) := by cbv
  have hparens : Formula.parse "(-x)" = .ok (.negate (.leaf (.var "x"))) := by cbv
  exact ⟨hf, hv, hsame _ _ _ _ hf hv, rfl, hget, hcanonical _ _ _ _ rfl hget, _, hx, hparens,
    (hread _ _ _ _ _ _ hx hparens hx).1⟩

end Reckon
