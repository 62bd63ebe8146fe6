/-
  Reckon — the operators of a formula.

  A formula joins its operands by `+`, `-`, `*` and `/` (`BinaryOp`) and
  negates them by a unary minus (`Operator.negate`).  An operator has a
  priority, the higher the tighter it binds, and all of them but `/` chain:
  a repeated `+`, `-` or `*` is grouped from its right end.
-/

namespace Reckon

/-- The operators with two operands. -/
inductive BinaryOp where
  | add
  | sub
  | mul
  | div
deriving DecidableEq

/-- An operator: one with two operands, or the unary minus. -/
inductive Operator where
  | binary (op : BinaryOp)
  | negate
deriving DecidableEq

namespace BinaryOp

/-- The character an operator is written with. -/
def symbol : BinaryOp → Char
  | add => '+'
  | sub => '-'
  | mul => '*'
  | div => '/'

/-- `*` and `/` bind tighter than `+` and `-`. -/
def priority : BinaryOp → Nat
  | add | sub => 2
  | mul | div => 3

end BinaryOp

namespace Operator

/-- The character an operator is written with. -/
def symbol : Operator → Char
  | binary op => op.symbol
  | negate => '-'

/-- The unary minus binds tightest. -/
def priority : Operator → Nat
  | binary op => op.priority
  | negate => 5

/-- An operator chains if it may wait on top of another one of its kind, so
    that a run of it is grouped from the right.  Only division does not. -/
def chains (o : Operator) : Bool :=
  o != binary .div

/-- An operator as messages name it. -/
def describe : Operator → String
  | binary op => "'" ++ op.symbol.toString ++ "'"
  | negate => "unary '-'"

end Operator

end Reckon
