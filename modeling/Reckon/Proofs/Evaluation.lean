/-
  Reckon — how the value of an expression comes about.

  Evaluation looks up the leaves of an expression and applies its operators,
  and there is nothing else that its outcome could come from:

  * `evalM_congr`: only the values of the leaves count;
  * `value_of_evalM`: with the expression, each of its leaves has a value;
  * `evalM_eq_error`: an error is that of a leaf or of an operator;
  * `evalM_bind`, `evalM_mapError`: leaves may be replaced and errors renamed
    before or after.
-/
import Reckon.Formula.Evaluation
import Reckon.Proofs.Settling

namespace Reckon

namespace Expr

variable {α β ν ε ε' : Type}

section Monad

variable {m : Type → Type} [Monad m] (neg : ν → ν) (apply : BinaryOp → ν → ν → m ν)

/-- **Only the values of the leaves count.** -/
theorem evalM_congr {value value' : α → m ν} {e : Expr α}
    (h : ∀ a ∈ e.leaves, value a = value' a) :
    e.evalM value neg apply = e.evalM value' neg apply := by
  induction e with
  | leaf a => exact h a (List.mem_singleton_self a)
  | negate e ih => rw [evalM, evalM, ih h]
  | binary op l r ihl ihr =>
    have hl : ∀ a ∈ l.leaves, value a = value' a := fun a ha => h a (List.mem_append_left _ ha)
    have hr : ∀ a ∈ r.leaves, value a = value' a := fun a ha => h a (List.mem_append_right _ ha)
    rw [evalM, evalM, ihl hl, ihr hr]

/-- The value of an expression with its leaves replaced is computed from the
    values of what they are replaced by. -/
theorem evalM_bind (value : β → m ν) (f : α → Expr β) (e : Expr α) :
    (e.bind f).evalM value neg apply =
      e.evalM (fun a => (f a).evalM value neg apply) neg apply := by
  induction e with
  | leaf a => rfl
  | negate e ih => rw [bind, evalM, evalM, ih]
  | binary op l r ihl ihr => rw [bind, evalM, evalM, ihl, ihr]

end Monad

section Except

variable {neg : ν → ν} {value : α → Except ε ν} {apply : BinaryOp → ν → ν → Except ε ν}

/-- Errors may be seen as others before or after the value is computed. -/
theorem evalM_mapError (value : α → Except ε ν) (neg : ν → ν)
    (apply : BinaryOp → ν → ν → Except ε ν) (g : ε → ε') (e : Expr α) :
    (e.evalM value neg apply).mapError g =
      e.evalM (fun a => (value a).mapError g) neg fun op x y => (apply op x y).mapError g := by
  induction e with
  | leaf a => rfl
  | negate e ih =>
    rw [evalM, evalM, ← ih, mapError_bind]
    rfl
  | binary op l r ihl ihr =>
    rw [evalM, evalM, ← ihl, ← ihr, mapError_bind]
    congr 1
    funext x
    rw [mapError_bind]

/-- **With the expression, each of its leaves has a value.** -/
theorem value_of_evalM {e : Expr α} {x : ν} (h : e.evalM value neg apply = .ok x) :
    ∀ a ∈ e.leaves, ∃ y, value a = .ok y := by
  induction e generalizing x with
  | leaf a =>
    intro b hb
    obtain rfl := List.mem_singleton.1 hb
    exact ⟨x, h⟩
  | negate e ih =>
    obtain ⟨y, hy, -⟩ := bind_eq_ok.1 h
    exact ih hy
  | binary op l r ihl ihr =>
    obtain ⟨y, hy, h⟩ := bind_eq_ok.1 h
    obtain ⟨z, hz, -⟩ := bind_eq_ok.1 h
    intro a ha
    rcases List.mem_append.1 ha with ha | ha
    · exact ihl hy a ha
    · exact ihr hz a ha

/-- **An error is that of a leaf or of an operator.** -/
theorem evalM_eq_error {e : Expr α} {err : ε} (h : e.evalM value neg apply = .error err) :
    (∃ a ∈ e.leaves, value a = .error err) ∨ ∃ op x y, apply op x y = .error err := by
  induction e with
  | leaf a => exact .inl ⟨a, List.mem_singleton_self a, h⟩
  | negate e ih =>
    rcases bind_eq_error.1 h with h | ⟨x, -, h⟩
    · exact ih h
    · cases h
  | binary op l r ihl ihr =>
    rcases bind_eq_error.1 h with h | ⟨x, -, h⟩
    · rcases ihl h with ⟨a, ha, h⟩ | h
      · exact .inl ⟨a, List.mem_append_left _ ha, h⟩
      · exact .inr h
    · rcases bind_eq_error.1 h with h | ⟨y, -, h⟩
      · rcases ihr h with ⟨a, ha, h⟩ | h
        · exact .inl ⟨a, List.mem_append_right _ ha, h⟩
        · exact .inr h
      · exact .inr ⟨op, x, y, h⟩

end Except

end Expr

/-! ## Operands and operators of formulas -/

/-- When an operand has a value. -/
theorem Operand.value_eq_ok_iff {v : Valuation} {a : Operand} {x : Binary64} :
    a.value v = .ok x ↔
      a = .number x ∨ ∃ name, a = .var name ∧ v.get? name = some x ∧ x.isFinite = true := by
  cases a with
  | number y => simp [value]
  | var name =>
    have hname : (var name = number x ∨ ∃ n, var name = var n ∧ v.get? n = some x ∧
        x.isFinite = true) ↔ v.get? name = some x ∧ x.isFinite = true := by simp
    rw [hname, value, Valuation.get]
    cases v.get? name with
    | none => simp [bind, Except.bind]
    | some y =>
      dsimp only
      rw [ok_bind]
      by_cases h : y.isFinite = true
      · rw [if_pos h]
        constructor
        · intro hy
          cases hy
          exact ⟨rfl, h⟩
        · rintro ⟨hy, -⟩
          cases hy
          rfl
      · rw [if_neg h]
        constructor
        · intro hy
          cases hy
        · rintro ⟨hy, hfinite⟩
          cases hy
          exact absurd hfinite h

/-- **An operand without a value** is a variable, and the error is about it. -/
theorem Operand.value_eq_error {v : Valuation} {a : Operand} {e : Error}
    (h : a.value v = .error e) :
    ∃ name, a = .var name ∧ (e = .incorrect (.unset name) ∨ e = .incorrect (.notFinite name)) := by
  cases a with
  | number x => cases h
  | var name =>
    refine ⟨name, rfl, ?_⟩
    rcases bind_eq_error.1 h with h | ⟨x, -, h⟩
    · unfold Valuation.get at h
      split at h <;> cases h
      exact .inl rfl
    · split at h <;> cases h
      exact .inr rfl

theorem Operand.kind_of_value {v : Valuation} {a : Operand} {e : Error}
    (h : a.value v = .error e) : e.kind = .incorrect := by
  obtain ⟨name, -, rfl | rfl⟩ := Operand.value_eq_error h <;> rfl

theorem BinaryOp.isFinite_of_compute {op : BinaryOp} {x y z : Binary64}
    (h : op.compute x y = .ok z) : z.isFinite = true := by
  unfold BinaryOp.compute at h
  split at h
  · cases h
  · split at h
    · rename_i hfinite
      cases h
      exact hfinite
    · cases h

theorem BinaryOp.kind_of_compute {op : BinaryOp} {x y : Binary64} {e : Error}
    (h : op.compute x y = .error e) : e.kind = .arithmetic := by
  unfold BinaryOp.compute at h
  split at h
  · cases h
    rfl
  · split at h <;> cases h
    rfl

end Reckon
