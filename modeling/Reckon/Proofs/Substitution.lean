/-
  Reckon — replacing a variable in a text and in a formula.

  A text in parentheses that is put in the place of a variable is read as one
  operand, the formula that it is read as by itself:

  * `takeAll_splice`: behind each lexeme, all that has been built differs only
    in its leaves;
  * `evaluate_substitute`: the value of a formula with another one for a
    variable is its value where the variable has that of the other one;
  * `parse_replaceVar` puts this together.
-/
import Reckon.Proofs.Embedding
import Reckon.Proofs.Finiteness
import Reckon.Proofs.Splicing

namespace Reckon

open Build

/-- An operand, or the formula `g` for the variable `x`. -/
def Operand.replaced (x : String) (g : Formula) (a : Operand) : Formula :=
  if a = .var x then g else .leaf a

/-- A formula with the formula `g` for each variable `x`. -/
def Formula.substitute (f : Formula) (x : String) (g : Formula) : Formula :=
  f.bind (Operand.replaced x g)

/-! ## Building -/

/-- What a lexeme contributes to a formula. -/
def Lexeme.symbol (l : Lexeme) : Except Error (Symbol Operand) :=
  Token.symbol ⟨l.kind, l.text, 0, 0⟩

/-- Formulas do not depend on the places of their tokens. -/
theorem Formula.ofTokens_eq (ts : List Token) :
    Formula.ofTokens ts = Expr.build Lexeme.symbol (ts.map Token.lexeme) := by
  unfold Formula.ofTokens Expr.build takeAll
  rw [List.foldlM_map]
  rfl

theorem Lexeme.eq_of_symbol {l : Lexeme} {x : String} (h : l.symbol = .ok (.operand (.var x))) :
    l = ⟨.var, x⟩ := by
  obtain ⟨kind, text⟩ := l
  unfold Lexeme.symbol Token.symbol at h
  cases kind with
  | var => cases h; rfl
  | number =>
    obtain ⟨y, -, hy⟩ := bind_eq_ok.1 h
    cases hy
  | operator | openParen | closeParen => cases h

section Building

variable {x : String} {gs : List Lexeme} {g : Formula}

/-- What is built by itself is one operand in parentheses. -/
theorem takeAll_inParens (h : Expr.build Lexeme.symbol gs = .ok g) (d : Build Operand) :
    takeAll Lexeme.symbol d (inParens gs) = .ok ⟨g :: d.operands, d.pending⟩ := by
  obtain ⟨b, hall, hfinish⟩ := bind_eq_ok.1 h
  obtain ⟨ss, hss, hrun⟩ := takeAll_eq_ok_iff.1 hall
  refine takeAll_eq_ok_iff.2 ⟨_, .cons rfl ?_, run_group hrun hfinish d⟩
  exact List.rel_append hss (.cons rfl .nil)

/-- **Behind a splice, only the leaves are others** than behind the lexemes
    that it was made of, and the errors are the same. -/
theorem takeAll_splice (h : Expr.build Lexeme.symbol gs = .ok g) (ls : List Lexeme)
    (b : Build Operand) :
    takeAll Lexeme.symbol (embed (Operand.replaced x g) empty b) (splice x gs ls) =
      (takeAll Lexeme.symbol b ls).map (embed (Operand.replaced x g) empty) := by
  induction ls generalizing b with
  | nil => rfl
  | cons l ls ih =>
    rcases eq_or_ne l ⟨.var, x⟩ with rfl | hl
    · have hleaf : (Expr.leaf (.var x)).bind (Operand.replaced x g) = g := if_pos rfl
      have hvar := ih ⟨.leaf (.var x) :: b.operands, b.pending⟩
      rw [embed, List.map_cons, hleaf] at hvar
      rw [splice_var, takeAll, List.foldlM_append, ← takeAll, takeAll_inParens h, ok_bind]
      exact hvar
    · rw [splice_cons hl, takeAll, takeAll, List.foldlM_cons, List.foldlM_cons, map_bind_eq]
      cases hs : l.symbol with
      | error e => rfl
      | ok s =>
        have hother (a : Operand) (ha : s = .operand a) : Operand.replaced x g a = .leaf a := by
          refine if_neg ?_
          rintro rfl
          exact hl (Lexeme.eq_of_symbol (hs.trans (congrArg _ ha)))
        have htake := take_embed .empty hother b (.inl rfl)
        rw [ok_bind, ok_bind, htake]
        cases b.take s with
        | error e => rfl
        | ok c => exact ih c

theorem build_splice (h : Expr.build Lexeme.symbol gs = .ok g) (ls : List Lexeme) :
    Expr.build Lexeme.symbol (splice x gs ls) =
      (Expr.build Lexeme.symbol ls).map fun t => Formula.substitute t x g := by
  have hall := takeAll_splice (x := x) h ls empty
  rw [embed_empty] at hall
  rw [Expr.build, hall, Expr.build, map_bind_eq]
  cases takeAll Lexeme.symbol empty ls with
  | error e => rfl
  | ok b => exact finish_embed _ b

end Building

/-! ## Parsing -/

theorem Formula.parse_of_scan {text : String} {ts : List Token} (h : scan text = .ok ts) :
    Formula.parse text =
      checkBalance (resolveMinus ts) >>= fun _ => Formula.ofTokens (resolveMinus ts) := by
  rw [Formula.parse_eq, tokenize_eq, h, ok_bind]
  cases checkBalance (resolveMinus ts) <;> rfl

/-- **A variable that is replaced in a text is replaced in the formula**, and
    what is wrong with the text stays the same. -/
theorem Formula.parse_replaced {f g : String} {ts : List Token} {tree : Formula}
    (hscan : scan f = .ok ts) (hparse : Formula.parse g = .ok tree) (x : String) :
    Formula.parse (replaceVar x g ts) = (Formula.parse f).map fun t => t.substitute x tree := by
  obtain ⟨us', htokens, htree⟩ := bind_eq_ok.1 ((Formula.parse_eq g).symm.trans hparse)
  obtain ⟨us, hus, hbalance, rfl⟩ := tokenize_eq_ok_iff.1 htokens
  obtain ⟨ts', hscan', hlexemes⟩ := scan_replaceVar hscan hus x
  have hresolved := resolveMinus_splice (kind_ne_negate_of_scan hscan)
    (kind_ne_negate_of_scan hus) hlexemes
  have hbalanced := checkBalance_eq_ok_iff.1 hbalance
  rw [← map_kind_lexeme] at hbalanced
  rw [Formula.ofTokens_eq] at htree
  rw [Formula.parse_of_scan hscan', Formula.parse_of_scan hscan,
    checkBalance_splice hbalanced hresolved, map_bind_eq]
  congr 1
  funext _
  rw [Formula.ofTokens_eq, Formula.ofTokens_eq, hresolved, build_splice htree]

/-! ## Values -/

/-- **Replacing a variable by a formula is giving it the value of the formula**,
    where it has a value. -/
theorem Formula.evaluate_substitute {g : Formula} {v : Valuation} {y : Binary64}
    (hg : g.evaluate v = .ok y) (hy : y.isFinite = true) (x : String) (f : Formula) :
    (f.substitute x g).evaluate v = f.evaluate (v.set x y) := by
  have hoperand : (fun a => (Operand.replaced x g a).evaluate v) = Operand.value (v.set x y) := by
    funext a
    by_cases ha : a = .var x
    · subst ha
      rw [Operand.replaced, if_pos rfl, hg, Operand.value, Valuation.get_set, if_pos rfl, ok_bind,
        if_pos hy]
    · rw [Operand.replaced, if_neg ha]
      cases a with
      | number z => rfl
      | var name =>
        have hname : name ≠ x := fun h => ha (congrArg _ h)
        rw [Operand.value, Valuation.get_set, if_neg hname]
        rfl
  rw [Formula.substitute, Formula.evaluate, Expr.evalM_bind, Formula.evaluate, ← hoperand]
  rfl

/-! ## Texts -/

/-- **Replacing a variable in a text is replacing it in the formula.**  Where
    the variable `x` stands among the tokens of a text, which give the text
    back, another text that can be parsed may be put in parentheses.  What is
    parsed then is the formula of the first text with that of the other one for
    each variable `x`, or the same error as before; and where the other formula
    has a value, the value of the whole, or what is wrong with it, is that of
    the first formula with this value given to `x`. -/
theorem parse_replaceVar {f g : String} {ts : List Token} {tree : Formula}
    (hscan : scan f = .ok ts) (hparse : Formula.parse g = .ok tree) (x : String) :
    String.join (ts.map Token.text) = f ∧
    Formula.parse (replaceVar x g ts) = ((Formula.parse f).map fun t => t.substitute x tree) ∧
    ∀ t v y, Formula.parse f = .ok t → tree.evaluate v = .ok y →
      ∃ t', Formula.parse (replaceVar x g ts) = .ok t' ∧
        t'.evaluate v = t.evaluate (v.set x y) := by
  have hreplaced := Formula.parse_replaced hscan hparse x
  refine ⟨join_text_of_scan hscan, hreplaced, ?_⟩
  intro t v y ht hy
  refine ⟨t.substitute x tree, by rw [hreplaced, ht]; rfl, ?_⟩
  exact Formula.evaluate_substitute hy (isFinite_of_evaluate (printable_of_parse hparse) hy) x t

/-- A negated variable in the place of one that is negated itself. -/
theorem parse_replaceVar_negations :
    ∃ ts, scan "-x*x1-x" = .ok ts ∧ replaceVar "x" "-y" ts = "-(-y)*x1-(-y)" ∧
      Formula.parse "-(-y)*x1-(-y)" =
        ((Formula.parse "-x*x1-x").map fun t => t.substitute "x" (.negate (.leaf (.var "y")))) ∧
      ∃ t', Formula.parse "-(-y)*x1-(-y)" = .ok t' ∧
        t'.evaluate (Valuation.empty.set "y" (.finite false .zero)) =
          .error (.incorrect (.unset "x1")) := by
  have hscan : scan "-x*x1-x" = .ok [⟨.operator (.binary .sub), "-", 0, 1⟩, ⟨.var, "x", 1, 2⟩,
      ⟨.operator (.binary .mul), "*", 2, 3⟩, ⟨.var, "x1", 3, 5⟩,
      ⟨.operator (.binary .sub), "-", 5, 6⟩, ⟨.var, "x", 6, 7⟩] := by cbv
  have hparse : Formula.parse "-y" = .ok (.negate (.leaf (.var "y"))) := by cbv
  have hf : Formula.parse "-x*x1-x" = .ok (.binary .sub (.binary .mul (.negate (.leaf (.var "x")))
      (.leaf (.var "x1"))) (.leaf (.var "x"))) := by cbv
  obtain ⟨-, hreplaced, hvalue⟩ := parse_replaceVar hscan hparse "x"
  obtain ⟨t', ht', heval⟩ := hvalue _ (Valuation.empty.set "y" (.finite false .zero))
    (.finite true .zero) hf rfl
  exact ⟨_, hscan, rfl, hreplaced, t', ht', heval.trans rfl⟩

end Reckon
