/-
  Reckon — the values of formulas.

  A formula is evaluated from left to right, each operator after its
  operands.  A variable must have a finite value, a divisor must not be zero
  and the result of an operator must be finite; the first that is not so is
  the error.  A number stands for itself, whatever it is.
-/
import Reckon.Formula
import Reckon.Valuation

namespace Reckon

/-- The value of an operand. -/
def Operand.value (v : Valuation) : Operand → Except Error Binary64
  | number x => .ok x
  | var name => do
    let x ← v.get name
    if x.isFinite then .ok x else .error (.incorrect (.notFinite name))

namespace BinaryOp

/-- The value of an operator on any numbers. -/
def onNumbers : BinaryOp → Binary64 → Binary64 → Binary64
  | add => Binary64.add
  | sub => Binary64.sub
  | mul => Binary64.mul
  | div => Binary64.div

/-- The value of an operator, if it is finite and no division by zero. -/
def compute (op : BinaryOp) (x y : Binary64) : Except Error Binary64 :=
  if op = div ∧ y.isZero then .error (.arithmetic (.zeroDivision x y))
  else if (op.onNumbers x y).isFinite then .ok (op.onNumbers x y)
  else .error (.arithmetic (.overflow op x y))

end BinaryOp

/-- The value of a formula, given those of its variables. -/
def Formula.evaluate (f : Formula) (v : Valuation) : Except Error Binary64 :=
  f.evalM (Operand.value v) Binary64.neg BinaryOp.compute

end Reckon
