/-
  Reckon — expressions built from operands, operators and parentheses.

  The symbols are taken from left to right.  Operands and what has been made
  of them wait on one stack, operators and open parentheses on another
  (`Build`), until what follows shows that an operator has got its operands:

  * an operator first settles those of at least its own priority, except that
    one which chains is put upon an operator of its own kind at once, so that
    runs of `+`, of `-` and of `*` are grouped from the right, and division
    from the left (`shift`);
  * a closing parenthesis settles all operators back to the opening one, and
    must find just one operand in between (`closeGroup`).

  Operands before an open parenthesis are out of reach for the operators
  inside (`floor`).  `Expr.build` is the expression of a whole list.
-/
import Reckon.Error
import Reckon.Expr

namespace Reckon

/-- What an expression is written with. -/
inductive Symbol (α : Type) where
  | operand (a : α)
  | operator (o : Operator)
  | openParen
  | closeParen
deriving DecidableEq

/-- What waits for the symbols to come. -/
inductive Pending where
  /-- an open parenthesis, with the number of operands before it -/
  | group (height : Nat)
  | operator (o : Operator)
deriving DecidableEq

/-- The state of building an expression: two stacks, the latest entries first. -/
structure Build (α : Type) where
  operands : List (Expr α)
  pending : List Pending

namespace Build

variable {σ α : Type}

/-- Nothing built yet. -/
def empty : Build α := ⟨[], []⟩

/-! ## Applying operators -/

/-- The number of operands before the innermost open parenthesis. -/
def floor : List Pending → Nat
  | [] => 0
  | .group height :: _ => height
  | .operator _ :: pending => floor pending

/-- The latest operand, for the operator `o`, and the others.  It must have
    come after the innermost open parenthesis. -/
def takeOperand (o : Operator) (pending : List Pending) (operands : List (Expr α)) :
    Except Error (Expr α × List (Expr α)) :=
  if operands.length ≤ floor pending then .error (.lexical (.missingOperand o))
  else match operands with
    | e :: rest => .ok (e, rest)
    | [] => .error (.internal .operandLost)

/-- The operands once the operator `o` has been applied to the latest of them. -/
def reduce (o : Operator) (pending : List Pending) (operands : List (Expr α)) :
    Except Error (List (Expr α)) := do
  let (right, rest) ← takeOperand o pending operands
  match o with
  | .negate => return .negate right :: rest
  | .binary op =>
    let (left, rest) ← takeOperand o pending rest
    return .binary op left right :: rest

/-- Apply the pending operators of at least the given priority, back to the
    innermost open parenthesis. -/
def settle (priority : Nat) : List Pending → List (Expr α) → Except Error (Build α)
  | .operator o :: pending, operands =>
    if o.priority < priority then .ok ⟨operands, .operator o :: pending⟩
    else do settle priority pending (← reduce o pending operands)
  | pending, operands => .ok ⟨operands, pending⟩

/-! ## Taking symbols -/

/-- Take an operator. -/
def shift (b : Build α) (o : Operator) : Except Error (Build α) := do
  let settled ←
    if o.chains ∧ b.pending.head? = some (.operator o) then .ok b
    else settle o.priority b.pending b.operands
  return { settled with pending := .operator o :: settled.pending }

/-- Take a closing parenthesis: apply the operators back to the opening one. -/
def closeGroup : List Pending → List (Expr α) → Except Error (Build α)
  | .operator o :: pending, operands => do closeGroup pending (← reduce o pending operands)
  | .group height :: pending, operands =>
    match operands.length - height with
    | 0 => .error (.lexical .emptyParentheses)
    | 1 => .ok ⟨operands, pending⟩
    | n => .error (.lexical (.unjoinedInside n))
  | [], _ => .error (.internal .nothingOpen)

/-- Take one symbol. -/
def take (b : Build α) : Symbol α → Except Error (Build α)
  | .operand a => .ok { b with operands := .leaf a :: b.operands }
  | .operator o => b.shift o
  | .openParen => .ok { b with pending := .group b.operands.length :: b.pending }
  | .closeParen => closeGroup b.pending b.operands

/-- Take a list of items, each of which is read as a symbol when its turn
    comes. -/
def takeAll (symbol : σ → Except Error (Symbol α)) (b : Build α) (items : List σ) :
    Except Error (Build α) :=
  items.foldlM (fun b i => do b.take (← symbol i)) b

/-- Apply the operators that are left.  One operand must remain. -/
def finish : List Pending → List (Expr α) → Except Error (Expr α)
  | .operator o :: pending, operands => do finish pending (← reduce o pending operands)
  | .group _ :: _, _ => .error (.internal .leftOpen)
  | [], [] => .error (.lexical .noOperands)
  | [], [e] => .ok e
  | [], operands => .error (.lexical (.unjoined operands.length))

end Build

/-- The expression that a list of items is grouped into, each of which is read
    as a symbol when its turn comes. -/
def Expr.build {σ α : Type} (symbol : σ → Except Error (Symbol α)) (items : List σ) :
    Except Error (Expr α) := do
  let b ← Build.takeAll symbol Build.empty items
  Build.finish b.pending b.operands

end Reckon
