/-
  Reckon — which values are finite.

  Evaluation looks at the values of variables and at the results of binary
  operators, and lets no other than finite ones pass.  It does not look at the
  numbers of a formula, nor at what a minus sign makes of a value.

  * `Formula.Unchecked`: all that is left of a formula if nothing is looked at,
    a number that is not finite behind minus signs;
  * `isFinite_eq_false_iff`: no other formula has a value that is not finite.
    These always have one (`Formula.Unchecked.exists_value`);
  * `isFinite_of_evaluate`: there is no such number in what can be written, so
    that what is read from a text has finite values only;
  * `Cache.values_finite` puts this together.
-/
import Reckon.Proofs.Evaluation
import Reckon.Proofs.Leaves
import Reckon.Proofs.Requests

namespace Reckon

/-! ## Numbers that nothing looks at -/

/-- A number that is not finite, behind any number of minus signs. -/
def Formula.Unchecked (f : Formula) : Prop :=
  ∃ (n : Nat) (x : Binary64), f = n.repeat Expr.negate (.leaf (.number x)) ∧ x.isFinite = false

theorem unchecked_number_iff {x : Binary64} :
    Formula.Unchecked (.leaf (.number x)) ↔ x.isFinite = false := by
  constructor
  · rintro ⟨n, y, hf, hy⟩
    cases n with
    | zero =>
      cases hf
      exact hy
    | succ n => cases hf
  · intro hx
    exact ⟨0, x, rfl, hx⟩

theorem not_unchecked_var (name : String) : ¬ Formula.Unchecked (.leaf (.var name)) := by
  rintro ⟨n, y, hf, -⟩
  cases n <;> cases hf

theorem not_unchecked_binary (op : BinaryOp) (l r : Formula) :
    ¬ Formula.Unchecked (.binary op l r) := by
  rintro ⟨n, y, hf, -⟩
  cases n <;> cases hf

theorem unchecked_negate_iff {f : Formula} : Formula.Unchecked (.negate f) ↔ f.Unchecked := by
  constructor
  · rintro ⟨n, x, hf, hx⟩
    cases n with
    | zero => cases hf
    | succ n =>
      cases hf
      exact ⟨n, x, rfl, hx⟩
  · rintro ⟨n, x, rfl, hx⟩
    exact ⟨n + 1, x, rfl, hx⟩

/-- Such a number is a leaf. -/
theorem Formula.Unchecked.mem_leaves {f : Formula} (h : f.Unchecked) :
    ∃ x, .number x ∈ f.leaves ∧ x.isFinite = false := by
  induction f with
  | leaf a =>
    cases a with
    | number x => exact ⟨x, List.mem_singleton_self _, unchecked_number_iff.1 h⟩
    | var name => exact absurd h (not_unchecked_var name)
  | negate f ih => exact ih (unchecked_negate_iff.1 h)
  | binary op l r => exact absurd h (not_unchecked_binary op l r)

theorem Formula.Unchecked.exists_value {f : Formula} (h : f.Unchecked) (v : Valuation) :
    ∃ x, f.evaluate v = .ok x := by
  induction f with
  | leaf a =>
    cases a with
    | number x => exact ⟨x, rfl⟩
    | var name => exact absurd h (not_unchecked_var name)
  | negate f ih =>
    obtain ⟨x, hx⟩ := ih (unchecked_negate_iff.1 h)
    exact ⟨x.neg, bind_eq_ok.2 ⟨x, hx, rfl⟩⟩
  | binary op l r => exact absurd h (not_unchecked_binary op l r)

/-! ## Values -/

/-- **The values that are not finite** are those that nothing has looked at. -/
theorem isFinite_eq_false_iff {f : Formula} {v : Valuation} {y : Binary64}
    (h : f.evaluate v = .ok y) : y.isFinite = false ↔ f.Unchecked := by
  induction f generalizing y with
  | leaf a =>
    rcases Operand.value_eq_ok_iff.1 h with rfl | ⟨name, rfl, -, hfinite⟩
    · exact unchecked_number_iff.symm
    · rw [hfinite]
      exact iff_of_false (by simp) (not_unchecked_var name)
  | negate f ih =>
    obtain ⟨x, hx, hneg⟩ := bind_eq_ok.1 h
    cases hneg
    rw [Binary64.isFinite_neg, unchecked_negate_iff]
    exact ih hx
  | binary op l r =>
    obtain ⟨x, -, h⟩ := bind_eq_ok.1 h
    obtain ⟨z, -, h⟩ := bind_eq_ok.1 h
    rw [BinaryOp.isFinite_of_compute h]
    exact iff_of_false (by simp) (not_unchecked_binary op l r)

/-- **What can be written has finite values only.** -/
theorem isFinite_of_evaluate {f : Formula} (hf : f.Printable) {v : Valuation} {y : Binary64}
    (h : f.evaluate v = .ok y) : y.isFinite = true := by
  by_contra hy
  rw [Bool.not_eq_true, isFinite_eq_false_iff h] at hy
  obtain ⟨x, hx, hinfinite⟩ := hy.mem_leaves
  obtain ⟨m, rfl⟩ := hf _ hx
  cases hinfinite

theorem isFinite_of_parse {text : String} {v : Valuation} {y : Binary64}
    (h : (Formula.parse text >>= fun f => f.evaluate v) = .ok y) : y.isFinite = true := by
  obtain ⟨f, hf, hy⟩ := bind_eq_ok.1 h
  exact isFinite_of_evaluate (printable_of_parse hf) hy

namespace Cache

/-- **A value is a finite number**, whatever the values of the variables are,
    if the formula is read from a text, with a cache in any state or without
    one.  Of all other formulas, too, the values are finite, but for those
    that are a number which is not finite behind minus signs, and always have
    a value.  The numbers of a formula that is read are finite and have no
    sign. -/
theorem values_finite :
    (∀ text v y, (Formula.parse text >>= fun f => f.evaluate v) = .ok y → y.isFinite = true) ∧
    (∀ o calls text v y, (((new o).after calls).evaluate text v).1.outcome = .ok y →
      y.isFinite = true) ∧
    (∀ (f : Formula) v y, f.evaluate v = .ok y → (y.isFinite = false ↔ f.Unchecked)) ∧
    (∀ (f : Formula) v, f.Unchecked → ∃ y, f.evaluate v = .ok y) ∧
    ∀ text f, Formula.parse text = .ok f → ∀ x, .number x ∈ f.leaves →
      ∃ m, x = .finite false m := by
  refine ⟨fun _ _ _ => isFinite_of_parse, ?_, fun _ _ _ => isFinite_eq_false_iff,
    fun _ v h => h.exists_value v, fun text f h x hx => printable_of_parse h _ hx⟩
  intro o calls text v y h
  rw [((Sound.new o).after calls).evaluate_outcome] at h
  exact isFinite_of_parse h

/-- A negated variable in a cache that has no more room, an infinity behind two
    minus signs, and a number in a text. -/
theorem values_finite_negated :
    let zero : Binary64 := .finite false .zero
    let v := Valuation.ofList [("x", zero), ("y", .nan)]
    let infinity : Formula := .negate (.negate (.leaf (.number (.infinite true))))
    (Formula.parse "x" >>= fun f => f.evaluate v) = .ok zero ∧ zero.isFinite = true ∧
      (((new ⟨true, some 1⟩).after [.get "y", .get "-x"]).evaluate "-x" v).1.outcome =
        .ok zero.neg ∧ zero.neg.isFinite = true ∧
      infinity.evaluate v = .ok (.infinite true) ∧ infinity.Unchecked ∧
      (∃ y, infinity.evaluate .empty = .ok y) ∧
      ∃ f x m, Formula.parse "2.5" = .ok f ∧ .number x ∈ f.leaves ∧ x = .finite false m := by
  intro zero v infinity
  obtain ⟨hread, hcache, hvalues, hnumbers, hsigns⟩ := values_finite
  have hx : Formula.parse "x" = .ok (.leaf (.var "x")) := by cbv
  have hplain : (Formula.parse "x" >>= fun f => f.evaluate v) = .ok zero := by
    rw [hx]
    rfl
  have hparse : Formula.parse "-x" = .ok (.negate (.leaf (.var "x"))) := by cbv
  have hvalue : (((new ⟨true, some 1⟩).after [.get "y", .get "-x"]).evaluate "-x" v).1.outcome =
      .ok zero.neg := by
    rw [((Sound.new _).after _).evaluate_outcome, hparse]
    rfl
  have hinfinity : infinity.evaluate v = .ok (.infinite true) := rfl
  have hnumber : (Formula.parse "2.5").toOption.any (fun f => f.leaves.any (·.name?.isNone)) =
      true := by decide +kernel
  have hunchecked : infinity.Unchecked := (hvalues _ _ _ hinfinity).1 rfl
  refine ⟨hplain, hread _ _ _ hplain, hvalue, hcache _ _ _ _ _ hvalue, hinfinity, hunchecked,
    hnumbers _ _ hunchecked, ?_⟩
  cases hf : Formula.parse "2.5" with
  | error e =>
    rw [hf] at hnumber
    cases hnumber
  | ok f =>
    rw [hf] at hnumber
    obtain ⟨a, ha, hname⟩ := List.any_eq_true.1 hnumber
    cases a with
    | number x =>
      obtain ⟨m, hm⟩ := hsigns _ _ hf x ha
      exact ⟨f, x, m, rfl, ha, hm⟩
    | var name => cases hname

end Cache

end Reckon
