/-
  Reckon — expressions over any kind of operand.

  An expression is an operand, a negation, or two expressions joined by a
  binary operator.  What its operands are is left open: an operand of a
  formula (`Reckon.Formula`), or anything else that stands in its place.

  * `leaves` lists the operands from left to right;
  * `render` writes an expression with all of its grouping;
  * `postorder` lists its nodes, each after its operands, and
    `ofPostorder?` builds the expression from such a list;
  * `evalM` computes its value, given those of its operands.
-/
import Reckon.Operator

namespace Reckon

/-- An expression over the operands `α`. -/
inductive Expr (α : Type) where
  | leaf (a : α)
  | negate (e : Expr α)
  | binary (op : BinaryOp) (left right : Expr α)
deriving DecidableEq

/-- A node of an expression, apart from what is below it. -/
inductive Node (α : Type) where
  | operand (a : α)
  | operator (o : Operator)
deriving DecidableEq

namespace Expr

variable {α β ν : Type}

/-- The operands from left to right. -/
def leaves : Expr α → List α
  | leaf a => [a]
  | negate e => e.leaves
  | binary _ l r => l.leaves ++ r.leaves

/-- The expression with each operand replaced by an expression. -/
def bind (f : α → Expr β) : Expr α → Expr β
  | leaf a => f a
  | negate e => negate (e.bind f)
  | binary op l r => binary op (l.bind f) (r.bind f)

/-- The expression with each operand replaced by another one. -/
def map (f : α → β) : Expr α → Expr β
  | leaf a => leaf (f a)
  | negate e => negate (e.map f)
  | binary op l r => binary op (l.map f) (r.map f)

/-- The text of an expression: every operator's operands are in parentheses
    with it, and those of a unary minus behind it. -/
def render (text : α → String) : Expr α → String
  | leaf a => text a
  | negate e => "-(" ++ e.render text ++ ")"
  | binary op l r =>
    "(" ++ l.render text ++ " " ++ op.symbol.toString ++ " " ++ r.render text ++ ")"

/-- Whether two expressions have the same shape and related operands. -/
def alike (related : α → β → Bool) : Expr α → Expr β → Bool
  | leaf a, leaf b => related a b
  | negate e, negate f => e.alike related f
  | binary op l r, binary op' l' r' => op == op' && l.alike related l' && r.alike related r'
  | _, _ => false

/-! ## Post-order -/

/-- The nodes of an expression, each after its operands, the left one first. -/
def postorder : Expr α → List (Node α)
  | leaf a => [.operand a]
  | negate e => e.postorder ++ [.operator .negate]
  | binary op l r => l.postorder ++ r.postorder ++ [.operator (.binary op)]

/-- A node placed upon the expressions that come before it, the latest first.
    There is none if an operator has too few of them. -/
def place? : List (Expr α) → Node α → Option (List (Expr α))
  | es, .operand a => some (leaf a :: es)
  | e :: es, .operator .negate => some (negate e :: es)
  | r :: l :: es, .operator (.binary op) => some (binary op l r :: es)
  | _, _ => none

/-- The expression with the given nodes in post-order, if there is one. -/
def ofPostorder? (nodes : List (Node α)) : Option (Expr α) :=
  match nodes.foldlM place? [] with
  | some [e] => some e
  | _ => none

/-! ## Evaluation -/

/-- The value of an expression.  Operands are looked up and operators applied
    in post-order, each of which may fail or have another effect. -/
def evalM {m : Type → Type} [Monad m] (value : α → m ν) (neg : ν → ν)
    (apply : BinaryOp → ν → ν → m ν) : Expr α → m ν
  | leaf a => value a
  | negate e => do return neg (← e.evalM value neg apply)
  | binary op l r => do
    let x ← l.evalM value neg apply
    let y ← r.evalM value neg apply
    apply op x y

end Expr

end Reckon
