/-
  Reckon — which minus signs are unary.

  A minus is unary at the beginning and behind a token that no operand ends
  with: an operator, a unary minus or an opening parenthesis.
-/
import Reckon.Token

namespace Reckon

/-- The kind of a token behind one of the kind `previous`, where a minus that
    has no operand before it is unary. -/
def Kind.after (previous : Option Kind) (k : Kind) : Kind :=
  if k = .operator (.binary .sub) ∧ !previous.any Kind.endsOperand then .operator .negate else k

/-- Tokens behind one of the kind `previous`, with the unary minus signs
    among them told from the binary ones. -/
def resolveMinusAfter (previous : Option Kind) : List Token → List Token
  | [] => []
  | t :: ts =>
    let kind := t.kind.after previous
    { t with kind } :: resolveMinusAfter (some kind) ts

/-- The tokens of a formula with the unary minus signs among them told from
    the binary ones. -/
def resolveMinus (tokens : List Token) : List Token :=
  resolveMinusAfter none tokens

end Reckon
