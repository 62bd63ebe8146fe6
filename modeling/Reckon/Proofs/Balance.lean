/-
  Reckon — tokens in balance.

  * `Balanced`: there is one operand more than there are binary operators, and
    every parenthesis has its partner; `checkBalance_eq_ok_iff`: this is what
    is checked;
  * `Balanced.group`, `Balanced.negate`, `Balanced.binary`: what is made of
    balanced parts is balanced;
  * `foldl_nesting_group`: balanced kinds in parentheses leave the nesting as
    it is, at any depth.
-/
import Reckon.Token.Balance
import Mathlib

namespace Reckon

/-- A list of kinds in balance. -/
structure Balanced (ks : List Kind) : Prop where
  operands : ks.countP Kind.isOperand = ks.countP Kind.isBinary + 1
  nested : nesting ks = ⟨0, false⟩

theorem operandComplaints_eq_nil_iff {ks : List Kind} :
    operandComplaints ks = [] ↔ ks.countP Kind.isOperand = ks.countP Kind.isBinary + 1 := by
  dsimp only [operandComplaints]
  split
  · exact iff_of_false (List.cons_ne_nil _ _) (by omega)
  · split
    · exact iff_of_false (List.cons_ne_nil _ _) (by omega)
    · exact iff_of_true rfl (by omega)

theorem parenthesisComplaints_eq_nil_iff {ks : List Kind} :
    parenthesisComplaints ks = [] ↔ nesting ks = ⟨0, false⟩ := by
  dsimp only [parenthesisComplaints]
  obtain ⟨depth, closedEarly⟩ := nesting ks
  rw [Nesting.mk.injEq]
  cases closedEarly with
  | true => simp
  | false =>
    rcases lt_trichotomy depth 0 with h | h | h
    · simp [h, h.ne]
    · simp [h]
    · simp [h, h.not_gt, h.ne']

/-- **Tokens are checked for balance.** -/
theorem checkBalance_eq_ok_iff {ts : List Token} :
    checkBalance ts = .ok () ↔ Balanced (ts.map Token.kind) := by
  have hnil : checkBalance ts = .ok () ↔
      operandComplaints (ts.map Token.kind) ++ parenthesisComplaints (ts.map Token.kind) = [] := by
    dsimp only [checkBalance]
    split
    · rename_i h
      exact iff_of_true rfl h
    · rename_i h
      exact iff_of_false nofun h
  rw [hnil, List.append_eq_nil_iff, operandComplaints_eq_nil_iff, parenthesisComplaints_eq_nil_iff]
  exact ⟨fun h => ⟨h.1, h.2⟩, fun h => ⟨h.operands, h.nested⟩⟩

/-- What is told of kinds out of balance, operands first. -/
def complaints (ks : List Kind) : List Complaint :=
  operandComplaints ks ++ parenthesisComplaints ks

/-- **Tokens out of balance** are turned down with all that is wrong. -/
theorem checkBalance_eq_error {ts : List Token} {e : Error} (h : checkBalance ts = .error e) :
    e = .lexical (.unbalanced (complaints (ts.map Token.kind))) := by
  dsimp only [checkBalance] at h
  split at h
  · cases h
  · cases h
    rfl

/-! ## Nesting further inside -/

/-- A nesting whose depth is not below zero without telling so. -/
def Nesting.Honest (n : Nesting) : Prop :=
  0 ≤ n.depth ∨ n.closedEarly = true

theorem Nesting.Honest.step {n : Nesting} (h : n.Honest) (k : Kind) : (n.step k).Honest := by
  cases k with
  | var | number | operator => exact h
  | openParen =>
    refine h.imp (fun hd => ?_) id
    simp only [Nesting.step]
    omega
  | closeParen =>
    simp only [Nesting.Honest, Nesting.step, Bool.or_eq_true, decide_eq_true_eq]
    omega

theorem closedEarly_foldl {ks : List Kind} {n : Nesting} (h : n.closedEarly = true) :
    (ks.foldl Nesting.step n).closedEarly = true := by
  induction ks generalizing n with
  | nil => exact h
  | cons k ks ih =>
    refine ih ?_
    cases k <;> simp [Nesting.step, h]

section Inside

variable {m : Nesting} {d : Int} {closedEarly : Bool}

/-- A token that closes nothing early does not do so `d` levels further inside,
    unless this is told already. -/
theorem Nesting.step_add (hd : 0 ≤ d ∨ closedEarly = true) {k : Kind}
    (hm : (m.step k).closedEarly = false) :
    Nesting.step ⟨m.depth + d, closedEarly⟩ k = ⟨(m.step k).depth + d, closedEarly⟩ := by
  cases k with
  | var | number | operator => rfl
  | openParen =>
    simp only [Nesting.step, Nesting.mk.injEq, and_true]
    omega
  | closeParen =>
    simp only [Nesting.step, Bool.or_eq_false_iff, decide_eq_false_iff_not] at hm
    simp only [Nesting.step, Nesting.mk.injEq, Bool.or_eq_left_iff_imp, decide_eq_true_eq]
    exact ⟨by omega, fun h => hd.resolve_left (by omega)⟩

theorem foldl_nesting_add (hd : 0 ≤ d ∨ closedEarly = true) {ks : List Kind}
    (hm : (ks.foldl Nesting.step m).closedEarly = false) :
    ks.foldl Nesting.step ⟨m.depth + d, closedEarly⟩ =
      ⟨(ks.foldl Nesting.step m).depth + d, closedEarly⟩ := by
  induction ks generalizing m with
  | nil => rfl
  | cons k ks ih =>
    have hfirst : (m.step k).closedEarly = false := by
      by_contra h
      rw [List.foldl_cons, closedEarly_foldl ((Bool.not_eq_false _).mp h)] at hm
      cases hm
    rw [List.foldl_cons, Nesting.step_add hd hfirst, List.foldl_cons, ih hm]

end Inside

/-- **A group in balance makes no difference** to the nesting around it. -/
theorem foldl_nesting_group {ks : List Kind} (hks : nesting ks = ⟨0, false⟩) {n : Nesting}
    (hn : n.Honest) :
    (.openParen :: (ks ++ [.closeParen]) : List Kind).foldl Nesting.step n = n := by
  obtain ⟨depth, closedEarly⟩ := n
  have hd : 0 ≤ depth + 1 ∨ closedEarly = true := hn.imp (fun h => le_trans h (by simp)) id
  have hearly : (ks.foldl Nesting.step ⟨0, false⟩).closedEarly = false := by rw [← nesting, hks]
  have hinside := foldl_nesting_add hd hearly
  rw [← nesting, hks, zero_add] at hinside
  rw [List.foldl_cons, List.foldl_append, Nesting.step, hinside]
  simp only [List.foldl_cons, List.foldl_nil, Nesting.step, add_sub_cancel_right,
    Nesting.mk.injEq, true_and, Bool.or_eq_left_iff_imp, decide_eq_true_eq]
  exact fun h => hn.resolve_left (not_le.2 h)

/-! ## Balanced parts -/

namespace Balanced

variable {v w : List Kind}

theorem group (h : Balanced w) : Balanced (.openParen :: (w ++ [.closeParen])) := by
  refine ⟨?_, foldl_nesting_group h.nested (.inl le_rfl)⟩
  simp only [List.countP_cons, List.countP_append, List.countP_nil, h.operands]
  rfl

theorem negate (h : Balanced w) : Balanced (.operator .negate :: w) := by
  refine ⟨?_, h.nested⟩
  simp only [List.countP_cons, h.operands]
  rfl

theorem binary (op : BinaryOp) (hv : Balanced v) (hw : Balanced w) :
    Balanced (v ++ .operator (.binary op) :: w) := by
  constructor
  · have hop : ¬ Kind.isOperand (.operator (.binary op)) = true := Bool.false_ne_true
    rw [List.countP_append, List.countP_append, List.countP_cons_of_neg hop,
      List.countP_cons_of_pos (by rfl), hv.operands, hw.operands]
    omega
  · rw [nesting, List.foldl_append, ← nesting, hv.nested]
    exact hw.nested

end Balanced

end Reckon
