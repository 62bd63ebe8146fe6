/-
  Reckon — equations: two formulas joined by one `=`.
-/
import Reckon.Error

namespace Reckon

/-- The texts of the two sides of an equation. -/
structure Equation where
  left : String
  right : String
deriving DecidableEq

/-- The sides of a text around its `=`, of which there must be just one.  The
    sides may be any texts. -/
def Equation.split (text : String) : Except Error Equation :=
  let left := text.toList.takeWhile (· ≠ '=')
  match text.toList.dropWhile (· ≠ '=') with
  | _ :: right =>
    if '=' ∈ right then .error (.incorrect .notTwoSides)
    else .ok ⟨String.ofList left, String.ofList right⟩
  | [] => .error (.incorrect .notTwoSides)

end Reckon
