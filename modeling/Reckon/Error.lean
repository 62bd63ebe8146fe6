/-
  Reckon — what can be wrong with a formula.

  An error is one of five kinds.  Each kind but the last can be mended by the
  one who wrote the formula; a fault of the last kind (`Fault`) shows that
  tokens were built into an expression without having been checked.

  `Error.message` is the text of an error: the wording of its kind
  (`ErrorKind.report`) around the details of the error (`Error.detail`).
-/
import Reckon.Operator
import Reckon.Decimal.Shortest
import Reckon.Text.Quoted

namespace Reckon

/-! ## Kinds -/

/-- The kinds of errors. -/
inductive ErrorKind where
  /-- characters that no formula contains -/
  | alphabet
  /-- characters or tokens that do not make up a formula -/
  | lexical
  /-- a formula or equation that cannot be used as asked -/
  | incorrect
  /-- a computation without a finite result -/
  | arithmetic
  /-- tokens that should not have got as far as they did -/
  | internal
deriving DecidableEq

namespace ErrorKind

/-- Whether mending the formula can help. -/
def isMendable (k : ErrorKind) : Bool :=
  k != internal

/-- The text of an error of a kind with the given details. -/
def report (k : ErrorKind) (detail : String) : String :=
  match k with
  | alphabet => "Characters " ++ Text.quote detail ++ " are not allowed in a formula"
  | lexical => "Lexical error: " ++ detail
  | incorrect => "Incorrect formula: " ++ detail
  | arithmetic => "Arithmetic error: " ++ detail
  | internal => "Internal error: " ++ detail

end ErrorKind

/-! ## Causes -/

/-- What is out of balance in a list of tokens. -/
inductive Complaint where
  | tooManyOperands
  | notEnoughOperands
  | notEnoughOpening
  | notEnoughClosing
deriving DecidableEq

/-- A complaint in words. -/
def Complaint.message : Complaint → String
  | tooManyOperands => "too many operands for binary operators"
  | notEnoughOperands => "not enough operands for binary operators"
  | notEnoughOpening => "not enough opening parentheses"
  | notEnoughClosing => "not enough closing parentheses"

/-- Why a text or its tokens do not make up a formula. -/
inductive LexicalCause where
  /-- characters of the alphabet that belong to no token -/
  | unrecognized (characters : String)
  | empty
  | unbalanced (complaints : List Complaint)
  | invalidNumber (text : String)
  | numberOutOfRange (text : String)
  | missingOperand (o : Operator)
  | emptyParentheses
  /-- operands side by side inside parentheses -/
  | unjoinedInside (operands : Nat)
  | noOperands
  | unjoined (operands : Nat)
deriving DecidableEq

/-- A lexical error in words; the text at fault is quoted. -/
def LexicalCause.message : LexicalCause → String
  | unrecognized cs => "characters " ++ Text.quote cs ++ " are not recognized"
  | empty => "formula is empty"
  | unbalanced cs => "; ".intercalate (cs.map Complaint.message)
  | invalidNumber t => "invalid number " ++ Text.quote t
  | numberOutOfRange t => "number " ++ Text.quote t ++ " is out of range"
  | missingOperand o => "operator " ++ o.describe ++ " is missing an operand"
  | emptyParentheses => "parentheses are empty"
  | unjoinedInside n =>
    toString n ++ " operands inside parentheses are not joined by an operator"
  | noOperands => "formula has no operands"
  | unjoined n => toString n ++ " operands are not joined by an operator"

/-- Why a formula or an equation cannot be used as asked. -/
inductive UseCause where
  | unset (name : String)
  | notFinite (name : String)
  /-- an equation without exactly two sides -/
  | notTwoSides
deriving DecidableEq

/-- A wrong use in words; a variable is named as it is written. -/
def UseCause.message : UseCause → String
  | unset name => "argument " ++ name ++ " is not set"
  | notFinite name => "argument " ++ name ++ " is not a finite number"
  | notTwoSides => "formula must be made of 2 parts split with \"=\""

/-- Why a computation has no finite result. -/
inductive ArithmeticCause where
  | zeroDivision (left right : Binary64)
  | overflow (op : BinaryOp) (left right : Binary64)
deriving DecidableEq

/-- A failed computation in words, with the values that it failed on. -/
def ArithmeticCause.message : ArithmeticCause → String
  | zeroDivision x y => "zero division at " ++ x.text ++ "/" ++ y.text
  | overflow op x y => x.text ++ " " ++ op.symbol.toString ++ " " ++ y.text ++ " overflows"

/-- A state that checked tokens do not lead to. -/
inductive Fault where
  /-- a parenthesis is closed and none is open -/
  | nothingOpen
  /-- a parenthesis is open at the end -/
  | leftOpen
  /-- an operand was counted and is not there -/
  | operandLost
deriving DecidableEq

/-- A fault in words. -/
def Fault.message : Fault → String
  | nothingOpen => "closing parenthesis without an open scope"
  | leftOpen => "unclosed scope on operator stack"
  | operandLost => "operand stack is empty"

/-! ## Errors -/

/-- What is wrong with a formula. -/
inductive Error where
  /-- the characters that no formula contains, each once -/
  | alphabet (characters : String)
  | lexical (cause : LexicalCause)
  | incorrect (cause : UseCause)
  | arithmetic (cause : ArithmeticCause)
  | internal (fault : Fault)
deriving DecidableEq

namespace Error

/-- The kind of an error. -/
def kind : Error → ErrorKind
  | alphabet _ => .alphabet
  | lexical _ => .lexical
  | incorrect _ => .incorrect
  | arithmetic _ => .arithmetic
  | internal _ => .internal

/-- What an error says beside its kind. -/
def detail : Error → String
  | alphabet characters => characters
  | lexical cause => cause.message
  | incorrect cause => cause.message
  | arithmetic cause => cause.message
  | internal fault => fault.message

/-- The text of an error. -/
def message (e : Error) : String :=
  e.kind.report e.detail

end Error

end Reckon
