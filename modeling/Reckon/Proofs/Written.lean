/-
  Reckon — formulas as they are written, and how they are grouped.

  A formula is written in infix form (`Written`), one constructor for each
  rule of the grammar `E ::= operand | (E) | -E | E op E`.  The grammar says
  nothing of grouping; that is settled level by level, a level being what
  stands inside one pair of parentheses or outside all of them:

  * a level is a chain of factors, atoms behind unary minus signs
    (`Written.level`), and is split into terms at `+` and `-` (`Chain.terms`);
  * the factors of a term, and likewise the terms of a level, are grouped from
    the left, run by run; a run of one operator other than `/` goes on as long
    as the items inside it are bare atoms, and is grouped from the right
    (`Form.chain`);
  * `Written.grouped` is the expression that a formula stands for.
-/
import Reckon.Expr.Build
import Mathlib

namespace Reckon

variable {α β : Type}

/-! ## Syntax -/

/-- A formula as it is written over the operands `α`. -/
inductive Written (α : Type) where
  | operand (a : α)
  /-- a formula in parentheses -/
  | group (e : Written α)
  | negate (e : Written α)
  | binary (op : BinaryOp) (left right : Written α)

namespace Written

/-- The symbols of a formula from left to right. -/
def symbols : Written α → List (Symbol α)
  | operand a => [.operand a]
  | group e => .openParen :: e.symbols ++ [.closeParen]
  | negate e => .operator .negate :: e.symbols
  | binary op l r => l.symbols ++ .operator (.binary op) :: r.symbols

end Written

/-! ## Chains -/

/-- Items with binary operators between them. -/
structure Chain (β : Type) where
  first : β
  links : List (BinaryOp × β)

/-- A chain split at `+` and `-`: the terms, each a chain whose operators are
    `*` and `/`, with the other operators between them. -/
def Chain.split (x : β) : List (BinaryOp × β) → Chain (Chain β)
  | [] => ⟨⟨x, []⟩, []⟩
  | (op, y) :: links =>
    let rest := split y links
    if op = .mul ∨ op = .div then ⟨⟨x, (op, rest.first.first) :: rest.first.links⟩, rest.links⟩
    else ⟨⟨x, []⟩, (op, rest.first) :: rest.links⟩

/-- The terms of a level. -/
def Chain.terms (c : Chain β) : Chain (Chain β) :=
  Chain.split c.first c.links

/-- How the items of a chain are written, what expression each stands for, and
    whether it is a bare atom. -/
structure Form (α β : Type) where
  symbols : β → List (Symbol α)
  expr : β → Expr α
  bare : β → Bool

namespace Form

variable (F : Form α β)

/-- The symbols of the links of a chain. -/
def linkSymbols (links : List (BinaryOp × β)) : List (Symbol α) :=
  links.flatMap fun l => .operator (.binary l.1) :: F.symbols l.2

/-- Whether two links of a chain are in one run: they have the same operator,
    which is not `/`, and the item between them is a bare atom. -/
def sameRun (l m : BinaryOp × β) : Bool :=
  l.1 = m.1 && l.1 != .div && F.bare l.2

/-- An expression and the links behind it, grouped from the right. -/
def groupRight (e : Expr α) : List (BinaryOp × β) → Expr α
  | [] => e
  | (op, x) :: links => .binary op e (groupRight (F.expr x) links)

/-- Chains of items.  The runs of a chain are grouped from the right, each
    with all that is before it as its first operand.  A chain is a bare atom
    if it is one and nothing else. -/
def chain : Form α (Chain β) where
  symbols c := F.symbols c.first ++ F.linkSymbols c.links
  expr c := (c.links.splitBy F.sameRun).foldl F.groupRight (F.expr c.first)
  bare c := c.links.isEmpty && F.bare c.first

end Form

/-! ## Levels -/

/-- An atom behind unary minus signs.  An atom is an operand or a formula in
    parentheses. -/
structure Factor (α : Type) where
  minuses : Nat
  atom : Written α
  /-- the expression that the atom stands for -/
  expr : Expr α

/-- Factors: the unary minus signs are applied to the atom only. -/
def Form.factor : Form α (Factor α) where
  symbols f := List.replicate f.minuses (.operator .negate) ++ f.atom.symbols
  expr f := f.minuses.repeat Expr.negate f.expr
  bare f := f.minuses == 0

/-- Terms: factors with `*` and `/` between them. -/
def Form.term : Form α (Chain (Factor α)) := Form.factor.chain

/-- Sums: terms with `+` and `-` between them. -/
def Form.sum : Form α (Chain (Chain (Factor α))) := Form.term.chain

namespace Written

/-- The factors of a formula and the operators between them, outside all of
    its parentheses. -/
def level : Written α → Chain (Factor α)
  | operand a => ⟨⟨0, .operand a, .leaf a⟩, []⟩
  | group e => ⟨⟨0, .group e, Form.sum.expr e.level.terms⟩, []⟩
  | negate e => ⟨{ e.level.first with minuses := e.level.first.minuses + 1 }, e.level.links⟩
  | binary op l r => ⟨l.level.first, l.level.links ++ (op, r.level.first) :: r.level.links⟩

/-- The expression that a formula stands for. -/
def grouped (e : Written α) : Expr α :=
  Form.sum.expr e.level.terms

end Written

end Reckon
