/-
  Reckon — formulas.

  A formula is an expression whose operands are numbers and variables.

  * `text` writes it with all of its grouping;
  * `variables` lists the names in it, sorted and each once;
  * `same` compares two formulas by the values of their numbers.
-/
import Reckon.Decimal.Shortest
import Reckon.Expr

namespace Reckon

/-- An operand of a formula. -/
inductive Operand where
  | number (x : Binary64)
  | var (name : String)
deriving DecidableEq

namespace Operand

/-- An operand as it is written in a formula. -/
def text : Operand → String
  | number x => x.text
  | var name => name

/-- The name of a variable. -/
def name? : Operand → Option String
  | number _ => none
  | var name => some name

/-- Whether two operands are the same variable or the same value. -/
def same : Operand → Operand → Bool
  | number x, number y => x.same y
  | var a, var b => a == b
  | _, _ => false

end Operand

/-- An expression of numbers and variables. -/
abbrev Formula := Expr Operand

/-- A name put into a sorted list that has each name once. -/
def insertName (name : String) : List String → List String
  | [] => [name]
  | n :: ns =>
    if name < n then name :: n :: ns
    else if name = n then n :: ns
    else n :: insertName name ns

namespace Formula

/-- The text of a formula with all of its grouping. -/
def text (f : Formula) : String :=
  f.render Operand.text

/-- The names of the variables in a formula, sorted and each once. -/
def «variables» (f : Formula) : List String :=
  (f.leaves.filterMap Operand.name?).foldr insertName []

/-- Whether two formulas have the same shape, variables and values of
    numbers. -/
def same (f g : Formula) : Bool :=
  f.alike Operand.same g

end Formula

end Reckon
