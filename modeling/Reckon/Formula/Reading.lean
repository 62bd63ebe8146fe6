/-
  Reckon — formulas read from text.

  A text is cut into tokens, its minus signs are told apart, the tokens are
  checked for balance (`tokenize`) and then grouped into a formula
  (`Formula.ofTokens`).  `Formula.parse` does it all.
-/
import Reckon.Decimal.Reading
import Reckon.Expr.Build
import Reckon.Journal
import Reckon.Token.Balance
import Reckon.Token.Minus
import Reckon.Token.Scan

namespace Reckon

/-- The tokens of a formula: told apart and in balance. -/
def tokenizeLogged (text : String) : Logged Error (List Token) := do
  let tokens ← scan text
  let tokens := resolveMinus tokens
  checkBalance tokens
  Logged.note (.tokenized text tokens.length)
  return tokens

/-- The tokens of a formula, as `tokenizeLogged` finds them. -/
def tokenize (text : String) : Except Error (List Token) :=
  (tokenizeLogged text).outcome

/-- Tokens are scanned, told apart and checked, in this order. -/
theorem tokenize_eq (text : String) :
    tokenize text = do
      let tokens ← scan text
      checkBalance (resolveMinus tokens)
      return resolveMinus tokens := by
  unfold tokenize tokenizeLogged
  simp only [Logged.outcome_bind]
  rfl

/-- The finite number that the text of a token denotes. -/
def readNumber (text : String) : Except Error Binary64 :=
  match Binary64.read text with
  | .error _ => .error (.lexical (.invalidNumber text))
  | .ok x => if x.isFinite then .ok x else .error (.lexical (.numberOutOfRange text))

/-- What a token contributes to a formula. -/
def Token.symbol (t : Token) : Except Error (Symbol Operand) :=
  match t.kind with
  | .var => .ok (.operand (.var t.text))
  | .number => do return .operand (.number (← readNumber t.text))
  | .operator o => .ok (.operator o)
  | .openParen => .ok .openParen
  | .closeParen => .ok .closeParen

namespace Formula

/-- The formula that a list of tokens is grouped into. -/
def ofTokens (tokens : List Token) : Except Error Formula :=
  Expr.build Token.symbol tokens

/-- The formula that a text denotes. -/
def parseLogged (text : String) : Logged Error Formula := do
  let tokens ← tokenizeLogged text
  let f ← ofTokens tokens
  Logged.note (.built text f)
  return f

/-- The formula that a text denotes, as `parseLogged` finds it. -/
def parse (text : String) : Except Error Formula :=
  (parseLogged text).outcome

/-- A formula is built from its tokens. -/
theorem parse_eq (text : String) :
    parse text = tokenize text >>= ofTokens := by
  unfold parse parseLogged
  simp only [Logged.outcome_bind]
  show tokenize text >>= (fun tokens => ofTokens tokens >>= fun f => .ok f) = _
  congr 1
  funext tokens
  cases ofTokens tokens <;> rfl

end Formula

end Reckon
