/-
  Reckon — grouping does not look at operands.

  How a formula is grouped depends on its operators and parentheses, and on
  which items are bare atoms:

  * `splitBy_map`: items that are replaced by others stay in the same runs;
  * `Form.Carries`: what holds of items holds of chains of them
    (`Form.Carries.chain`);
  * `grouped_map`: a formula with other operands stands for the same expression
    with these operands.
-/
import Reckon.Proofs.Spelling

namespace Reckon

variable {α β γ δ : Type}

/-! ## Chains with other items -/

/-- A chain with each item replaced by another one. -/
def Chain.map (f : β → γ) (c : Chain β) : Chain γ :=
  ⟨f c.first, c.links.map fun l => (l.1, f l.2)⟩

theorem Chain.split_map (f : β → γ) (x : β) (links : List (BinaryOp × β)) :
    Chain.split (f x) (links.map fun l => (l.1, f l.2)) =
      (Chain.split x links).map (Chain.map f) := by
  induction links generalizing x with
  | nil => rfl
  | cons l links ih =>
    simp only [List.map_cons, Chain.split, ih]
    split <;> rfl

theorem Chain.terms_map (f : β → γ) (c : Chain β) : (c.map f).terms = c.terms.map (Chain.map f) :=
  Chain.split_map f c.first c.links

/-- Runs are the same if their items are replaced and stay related. -/
theorem splitBy_map {f : β → γ} {r : β → β → Bool} {s : γ → γ → Bool}
    (h : ∀ x y, s (f x) (f y) = r x y) (l : List β) :
    (l.map f).splitBy s = (l.splitBy r).map (List.map f) := by
  rw [List.splitBy_eq_iff]
  refine ⟨?_, ?_, ?_, ?_⟩
  · rw [← List.map_flatten, List.flatten_splitBy]
  · simp [List.nil_notMem_splitBy]
  · intro _ hmem
    obtain ⟨run, hrun, rfl⟩ := List.mem_map.1 hmem
    rw [List.isChain_map]
    exact (List.isChain_of_mem_splitBy hrun).imp fun x y hxy => (h x y).trans hxy
  · rw [List.isChain_map]
    refine (List.isChain_getLast_head_splitBy r l).imp fun a b ⟨ha, hb, hab⟩ => ?_
    refine ⟨mt List.map_eq_nil_iff.1 ha, mt List.map_eq_nil_iff.1 hb, ?_⟩
    rw [List.getLast_map, List.head_map, h, hab]

/-! ## Forms with other operands -/

namespace Form

/-- Items of one form stand for what those of another form stand for, with
    other operands. -/
structure Carries (F : Form α β) (G : Form γ δ) (f : α → γ) (g : β → δ) : Prop where
  expr : ∀ x, G.expr (g x) = (F.expr x).map f
  bare : ∀ x, G.bare (g x) = F.bare x

variable {F : Form α β} {G : Form γ δ} {f : α → γ} {g : β → δ}

theorem Carries.groupRight (h : F.Carries G f g) (e : Expr α) (links : List (BinaryOp × β)) :
    G.groupRight (e.map f) (links.map fun l => (l.1, g l.2)) = (F.groupRight e links).map f := by
  induction links generalizing e with
  | nil => rfl
  | cons l links ih =>
    obtain ⟨op, x⟩ := l
    rw [List.map_cons, Form.groupRight, h.expr, ih]
    rfl

/-- **Chains are grouped in the same way**, whatever their items stand for. -/
theorem Carries.chain (h : F.Carries G f g) : F.chain.Carries G.chain f (Chain.map g) := by
  constructor
  · intro c
    have hruns := splitBy_map (f := fun l : BinaryOp × β => (l.1, g l.2)) (r := F.sameRun)
      (s := G.sameRun) (fun l m => by simp only [sameRun, h.bare]) c.links
    simp only [Form.chain, Chain.map, hruns, h.expr, List.foldl_map]
    generalize F.expr c.first = e
    induction c.links.splitBy F.sameRun generalizing e with
    | nil => rfl
    | cons run runs ih => rw [List.foldl_cons, h.groupRight, ih, List.foldl_cons]
  · intro c
    simp [Form.chain, Chain.map, h.bare]

end Form

/-! ## Formulas with other operands -/

theorem Expr.map_repeat_negate (f : α → γ) (n : Nat) (e : Expr α) :
    (n.repeat Expr.negate e).map f = n.repeat Expr.negate (e.map f) := by
  induction n with
  | zero => rfl
  | succ n ih => exact congrArg Expr.negate ih

/-- A factor with other operands. -/
def Factor.map (f : α → γ) (x : Factor α) : Factor γ :=
  ⟨x.minuses, x.atom.map f, x.expr.map f⟩

theorem Form.carries_sum (f : α → γ) :
    Form.sum.Carries Form.sum f (Chain.map (Chain.map (Factor.map f))) := by
  have hfactor : Form.factor.Carries Form.factor f (Factor.map f) :=
    ⟨fun x => (Expr.map_repeat_negate f x.minuses x.expr).symm, fun _ => rfl⟩
  exact hfactor.chain.chain

namespace Written

theorem level_map (f : α → γ) (e : Written α) : (e.map f).level = e.level.map (Factor.map f) := by
  induction e with
  | operand a => rfl
  | group e ih =>
    have hexpr := (Form.carries_sum f).expr e.level.terms
    rw [map, level, ih, Chain.terms_map, hexpr]
    rfl
  | negate e ih =>
    rw [map, level, ih]
    rfl
  | binary op l r ihl ihr =>
    rw [map, level, ihl, ihr]
    simp [level, Chain.map]

/-- **A formula with other operands** is grouped as it was. -/
theorem grouped_map (f : α → γ) (e : Written α) : (e.map f).grouped = e.grouped.map f := by
  rw [grouped, level_map, Chain.terms_map]
  exact (Form.carries_sum f).expr e.level.terms

end Written

end Reckon
