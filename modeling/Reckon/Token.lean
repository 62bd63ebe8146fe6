/-
  Reckon — tokens, the words of a formula.

  A token is a slice of the formula's text with its kind and its place, the
  byte offsets of its two ends.  A minus is read as the binary operator first;
  which ones are unary is settled afterwards (`Reckon.Token.Minus`).
-/
import Reckon.Operator

namespace Reckon

/-- The kinds of tokens. -/
inductive Kind where
  /-- a name, to be given a value when the formula is evaluated -/
  | var
  /-- a decimal number without sign or exponent -/
  | number
  | operator (o : Operator)
  | openParen
  | closeParen
deriving DecidableEq

namespace Kind

/-- Variables and numbers stand for a value. -/
def isOperand : Kind → Bool
  | var | number => true
  | _ => false

/-- The binary operator of a kind, if it is one. -/
def binary? : Kind → Option BinaryOp
  | operator (.binary op) => some op
  | _ => none

/-- Whether a kind is an operator with two operands. -/
def isBinary (k : Kind) : Bool :=
  k.binary?.isSome

/-- Whether a kind is the unary minus. -/
def isUnary (k : Kind) : Bool :=
  k = operator .negate

/-- Whether an operand can end with a token of this kind.  A minus after such
    a token is binary. -/
def endsOperand : Kind → Bool
  | var | number | closeParen => true
  | _ => false

/-- How tightly a kind groups; operands do not group anything. -/
def priority : Kind → Option Nat
  | var | number => none
  | openParen | closeParen => some 1
  | operator o => some o.priority

/-- A kind as messages name it. -/
def describe : Kind → String
  | var => "variable"
  | number => "number"
  | operator o => o.describe
  | openParen => "'('"
  | closeParen => "')'"

end Kind

/-- A slice of a formula's text.  `start` and `stop` are the byte offsets of
    its first character and of the end of its last one. -/
structure Token where
  kind : Kind
  text : String
  start : Nat
  stop : Nat
deriving DecidableEq

/-- One line about a token: its kind, text and place. -/
def Token.describe (t : Token) : String :=
  t.kind.describe ++ " `" ++ t.text ++ "` at " ++ toString t.start ++ ".." ++ toString t.stop

end Reckon
