/-
  Reckon — evaluation on a stack of values.

  The nodes of a formula in post-order are a program for a machine with a stack
  of values: an operand is put upon the stack, and an operator takes its
  operands from it and leaves its result.  The machine of this module knows
  nothing of formulas; it may find the stack too short, and it tells in words
  why a step has no result.

  * `foldlM_postorder`: whatever the values and the effects are, going through
    the nodes of an expression leaves the value of the expression upon what
    was there before.  For values that are expressions, this says that an
    expression is built again from its nodes (`ofPostorder?_postorder`);
  * `run_postorder`: the case of the machine.  Its steps are those of
    evaluation (`step_operand`, `step_binary`);
  * `evaluate_eq_run`: evaluation and the machine have the same outcome, which
    is that of the first step that fails, if there is one.
-/
import Reckon.Proofs.Evaluation

namespace Reckon

/-! ## Going through the nodes -/

namespace Expr

variable {α ν : Type} {m : Type → Type} [Monad m] [LawfulMonad m]
  {step : List ν → Node α → m (List ν)} {value : α → m ν} {neg : ν → ν}
  {apply : BinaryOp → ν → ν → m ν}

/-- **Going through the nodes of an expression** is evaluating it, on any stack,
    if the steps put operands on it and apply operators to its latest values. -/
theorem foldlM_postorder
    (hoperand : ∀ stack a, step stack (.operand a) = (· :: stack) <$> value a)
    (hnegate : ∀ stack x, step (x :: stack) (.operator .negate) = pure (neg x :: stack))
    (hbinary : ∀ stack op x y,
      step (y :: x :: stack) (.operator (.binary op)) = (· :: stack) <$> apply op x y)
    (e : Expr α) (stack : List ν) :
    e.postorder.foldlM step stack = (· :: stack) <$> e.evalM value neg apply := by
  induction e generalizing stack with
  | leaf a => simp [postorder, evalM, hoperand]
  | negate e ih => simp [postorder, evalM, List.foldlM_append, ih, hnegate]
  | binary op l r ihl ihr => simp [postorder, evalM, List.foldlM_append, ihl, ihr, hbinary]

/-- An expression is its own value where operators are applied by writing them. -/
theorem evalM_self (e : Expr α) :
    e.evalM (fun a => some (.leaf a)) negate (fun op l r => some (binary op l r)) = some e := by
  induction e with
  | leaf a => rfl
  | negate e ih => simp [evalM, ih]
  | binary op l r ihl ihr => simp [evalM, ihl, ihr]

/-- **An expression is built again from its nodes.** -/
theorem ofPostorder?_postorder (e : Expr α) : ofPostorder? e.postorder = some e := by
  have hplaced : e.postorder.foldlM place? [] = (· :: []) <$>
      e.evalM (fun a => some (.leaf a)) negate (fun op l r => some (binary op l r)) :=
    foldlM_postorder (m := Option) (fun _ _ => rfl) (fun _ _ => rfl) (fun _ _ _ _ => rfl) e []
  rw [ofPostorder?, hplaced, evalM_self]
  rfl

end Expr

/-! ## The machine -/

namespace StackMachine

/-- Why the machine stops before the end. -/
inductive Halt where
  /-- a step has no result -/
  | error (kind : ErrorKind) (detail : String)
  /-- an operator has too few values before it -/
  | starved (o : Operator)

/-- What is told of an error. -/
def Halt.ofError (e : Error) : Halt :=
  .error e.kind e.detail

abbrev Outcome (α : Type) : Type := Except Halt α

/-- Whether a value equals 0.0, whatever the sign of either. -/
def equalsZero (x : Binary64) : Bool :=
  x.same (.finite false .zero)

/-- The values behind one node, the latest first. -/
def step (v : Valuation) (stack : List Binary64) : Node Operand → Outcome (List Binary64)
  | .operand (.number x) => .ok (x :: stack)
  | .operand (.var name) =>
    match v.get? name with
    | none => .error (.error .incorrect ("argument " ++ name ++ " is not set"))
    | some x =>
      if x.isFinite then .ok (x :: stack)
      else .error (.error .incorrect ("argument " ++ name ++ " is not a finite number"))
  | .operator o =>
    match o, stack with
    | .negate, x :: rest => .ok (x.neg :: rest)
    | .binary op, y :: x :: rest =>
      if op = .div ∧ equalsZero y then
        .error (.error .arithmetic ("zero division at " ++ x.text ++ "/" ++ y.text))
      else if (op.onNumbers x y).isFinite then .ok (op.onNumbers x y :: rest)
      else
        .error (.error .arithmetic
          (x.text ++ " " ++ op.symbol.toString ++ " " ++ y.text ++ " overflows"))
    | o, _ => .error (.starved o)

/-- The values behind a list of nodes. -/
def run (v : Valuation) (stack : List Binary64) (nodes : List (Node Operand)) :
    Outcome (List Binary64) :=
  nodes.foldlM (step v) stack

/-- The first step that fails on an empty stack is that of the node `n` behind
    the nodes `before`. -/
def StopsAt (v : Valuation) (before : List (Node Operand)) (n : Node Operand) (halt : Halt) :
    Prop :=
  ∃ stack, run v [] before = .ok stack ∧ step v stack n = .error halt

/-! ## Steps -/

theorem equalsZero_eq (x : Binary64) : equalsZero x = x.isZero := by
  cases x with
  | nan | infinite => rfl
  | finite s m =>
    have hzero : (Magnitude.zero).units = 0 := rfl
    by_cases h : m.units = 0
    · simp [equalsZero, Binary64.same, Binary64.isZero, hzero, h]
    · simp [equalsZero, Binary64.same, Binary64.isZero, hzero, h]

/-- An operand is put upon the stack, if it has a value. -/
theorem step_operand (v : Valuation) (stack : List Binary64) (a : Operand) :
    step v stack (.operand a) = (· :: stack) <$> (a.value v).mapError Halt.ofError := by
  cases a with
  | number x => rfl
  | var name =>
    rw [step, Operand.value, Valuation.get]
    cases v.get? name with
    | none => rfl
    | some x =>
      dsimp only
      rw [ok_bind]
      by_cases h : x.isFinite = true
      · rw [if_pos h, if_pos h]
        rfl
      · rw [if_neg h, if_neg h]
        rfl

/-- An operator takes the two latest values, the later one on its right. -/
theorem step_binary (v : Valuation) (stack : List Binary64) (op : BinaryOp) (x y : Binary64) :
    step v (y :: x :: stack) (.operator (.binary op)) =
      (· :: stack) <$> (op.compute x y).mapError Halt.ofError := by
  rw [step, BinaryOp.compute, equalsZero_eq]
  by_cases hzero : op = .div ∧ y.isZero = true
  · rw [if_pos hzero, if_pos hzero]
    rfl
  · rw [if_neg hzero, if_neg hzero]
    by_cases hfinite : (op.onNumbers x y).isFinite = true
    · rw [if_pos hfinite, if_pos hfinite]
      rfl
    · rw [if_neg hfinite, if_neg hfinite]
      rfl

/-- A step depends on the values of names only where its node is one. -/
theorem step_congr {v w : Valuation} {n : Node Operand}
    (h : ∀ name, n = .operand (.var name) → w.get? name = v.get? name) (stack : List Binary64) :
    step w stack n = step v stack n := by
  cases n with
  | operator o => rfl
  | operand a =>
    cases a with
    | number x => rfl
    | var name => rw [step, step, h name rfl]

/-! ## Runs -/

theorem run_congr {v w : Valuation} {nodes : List (Node Operand)}
    (h : ∀ name, .operand (.var name) ∈ nodes → w.get? name = v.get? name)
    (stack : List Binary64) : run w stack nodes = run v stack nodes := by
  induction nodes generalizing stack with
  | nil => rfl
  | cons n nodes ih =>
    have hstep : step w stack n = step v stack n := by
      refine step_congr (fun name hname => h name ?_) stack
      rw [hname]
      exact List.mem_cons_self ..
    rw [run, run, List.foldlM_cons, List.foldlM_cons, hstep]
    congr 1
    funext s
    exact ih (fun name hname => h name (List.mem_cons_of_mem _ hname)) s

/-- **A run through the nodes of a formula** puts its value upon the stack. -/
theorem run_postorder (f : Formula) (v : Valuation) (stack : List Binary64) :
    run v stack f.postorder = (· :: stack) <$> (f.evaluate v).mapError Halt.ofError := by
  rw [Formula.evaluate, Expr.evalM_mapError]
  exact Expr.foldlM_postorder (step_operand v) (fun _ _ => rfl) (step_binary v) f stack

theorem run_eq_error_iff {v : Valuation} {nodes : List (Node Operand)} {halt : Halt} :
    run v [] nodes = .error halt ↔
      ∃ before n later, nodes = before ++ n :: later ∧ StopsAt v before n halt := by
  rw [run, foldlM_eq_error_iff]
  constructor
  · rintro ⟨before, n, later, stack, hnodes, hrun, hstep⟩
    exact ⟨before, n, later, hnodes, stack, hrun, hstep⟩
  · rintro ⟨before, n, later, hnodes, stack, hrun, hstep⟩
    exact ⟨before, n, later, stack, hnodes, hrun, hstep⟩

/-- Where a run stops depends on nothing that comes later. -/
theorem StopsAt.congr {v w : Valuation} {before : List (Node Operand)} {n : Node Operand}
    {halt : Halt} (h : StopsAt v before n halt)
    (hnames : ∀ name, .operand (.var name) ∈ before ++ [n] → w.get? name = v.get? name) :
    StopsAt w before n halt := by
  obtain ⟨stack, hrun, hstep⟩ := h
  refine ⟨stack, ?_, ?_⟩
  · rw [run_congr fun name hname => hnames name (List.mem_append_left _ hname)]
    exact hrun
  · rw [step_congr fun name hname => hnames name (List.mem_append_right _ (by rw [hname]; simp))]
    exact hstep

/-! ## Evaluation -/

theorem evaluate_eq_error_iff {f : Formula} {v : Valuation} {halt : Halt} :
    (f.evaluate v).mapError Halt.ofError = .error halt ↔ run v [] f.postorder = .error halt := by
  rw [run_postorder]
  cases (f.evaluate v).mapError Halt.ofError with
  | error told => exact ⟨fun h => by rw [h]; rfl, fun h => by cases h; rfl⟩
  | ok x => exact ⟨nofun, nofun⟩

end StackMachine

open StackMachine

/-- **Evaluating a formula is running its nodes on a stack of values.**  The
    nodes in post-order are the whole formula.  Run on an empty stack, they
    leave its value and nothing else, or stop with what is told of its error,
    and never for want of values.  The error is that of the first step that
    fails; a formula that begins with the same nodes up to this step, in a
    valuation with the same values for the names among them, has this error
    too, whatever comes later. -/
theorem evaluate_eq_run (f : Formula) (v : Valuation) :
    Expr.ofPostorder? f.postorder = some f ∧
    run v [] f.postorder = (fun x => [x]) <$> (f.evaluate v).mapError Halt.ofError ∧
    (∀ halt, (f.evaluate v).mapError Halt.ofError = .error halt ↔
      ∃ before n later, f.postorder = before ++ n :: later ∧ StopsAt v before n halt) ∧
    ∀ before n halt, StopsAt v before n halt →
      ∀ (g : Formula) w, before ++ [n] <+: g.postorder →
        (∀ name, .operand (.var name) ∈ before ++ [n] → w.get? name = v.get? name) →
        (g.evaluate w).mapError Halt.ofError = .error halt := by
  refine ⟨Expr.ofPostorder?_postorder f, run_postorder f v [], fun halt => ?_, ?_⟩
  · rw [evaluate_eq_error_iff, run_eq_error_iff]
  · intro before n halt hstops g w hg hnames
    obtain ⟨later, hlater⟩ := hg
    rw [evaluate_eq_error_iff, run_eq_error_iff]
    refine ⟨before, n, later, ?_, hstops.congr hnames⟩
    rw [← hlater, List.append_assoc]
    rfl

/-- A division by zero, before a name without a value in one formula and before
    a number that is not finite in another. -/
theorem evaluate_eq_run_division :
    let zero : Binary64 := .finite false .zero
    let v := Valuation.ofList [("x", zero)]
    let w := Valuation.ofList [("x", zero), ("y", .nan)]
    let quotient : Formula := .binary .div (.leaf (.var "x")) (.leaf (.number zero.neg))
    let f : Formula := .binary .sub quotient (.leaf (.var "z"))
    let g : Formula := .binary .add quotient (.leaf (.number .nan))
    let before := [.operand (.var "x"), .operand (.number zero.neg)]
    let halt := Halt.error .arithmetic ("zero division at " ++ zero.text ++ "/" ++ zero.neg.text)
    StopsAt v before (.operator (.binary .div)) halt ∧
      (f.evaluate v).mapError Halt.ofError = .error halt ∧
      (g.evaluate w).mapError Halt.ofError = .error halt := by
  intro zero v w quotient f g before halt
  have hstops : StopsAt v before (.operator (.binary .div)) halt := ⟨[zero.neg, zero], rfl, rfl⟩
  obtain ⟨-, -, hfirst, hkept⟩ := evaluate_eq_run f v
  refine ⟨hstops, ?_, ?_⟩
  · exact (hfirst halt).2 ⟨before, .operator (.binary .div), _, rfl, hstops⟩
  · refine hkept before _ halt hstops g w ⟨_, rfl⟩ ?_
    intro name hname
    have hx : name = "x" := by simpa [before] using hname
    rw [hx]
    rfl

end Reckon
