/-
  Reckon — tokens in balance.

  In a formula there is one operand more than there are binary operators, and
  every closing parenthesis has an opening one before it.  Both are checked,
  and all that is wrong is told at once.
-/
import Reckon.Error
import Reckon.Token

namespace Reckon

/-- What is wrong with the number of operands. -/
def operandComplaints (kinds : List Kind) : List Complaint :=
  let operands := kinds.countP Kind.isOperand
  let operators := kinds.countP Kind.isBinary
  if operands > operators + 1 then [.tooManyOperands]
  else if operands < operators + 1 then [.notEnoughOperands]
  else []

/-- How parentheses are nested up to some place: the number of opening ones
    less that of closing ones, and whether that was ever below zero. -/
structure Nesting where
  depth : Int
  closedEarly : Bool
deriving DecidableEq

/-- The nesting behind one more token. -/
def Nesting.step (n : Nesting) : Kind → Nesting
  | .openParen => { n with depth := n.depth + 1 }
  | .closeParen => ⟨n.depth - 1, n.closedEarly || n.depth - 1 < 0⟩
  | _ => n

/-- The nesting behind a list of tokens. -/
def nesting (kinds : List Kind) : Nesting :=
  kinds.foldl Nesting.step ⟨0, false⟩

/-- What is wrong with the parentheses. -/
def parenthesisComplaints (kinds : List Kind) : List Complaint :=
  let n := nesting kinds
  if n.closedEarly || n.depth < 0 then [.notEnoughOpening]
  else if n.depth > 0 then [.notEnoughClosing]
  else []

/-- Tokens in balance, or all that is wrong with it. -/
def checkBalance (tokens : List Token) : Except Error Unit :=
  let kinds := tokens.map Token.kind
  match operandComplaints kinds ++ parenthesisComplaints kinds with
  | [] => .ok ()
  | complaints => .error (.lexical (.unbalanced complaints))

end Reckon
