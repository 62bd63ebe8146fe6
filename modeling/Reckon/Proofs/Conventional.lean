/-
  Reckon — grouping and exact values.

  A run of one operator is grouped from the right, where by convention all
  operators are grouped from the left.  For exact numbers this makes no
  difference but in a run of subtractions:

  * `Written.conventional` is the expression that a formula stands for by
    convention, and `Expr.exact` the exact value of an expression;
  * `Chain.value` is the value of a chain from the left.  Chains that are grouped
    from the left have it (`exact_leftChain`), and so have those that are
    grouped run by run, if no run is one of subtractions (`exact_chain`);
  * `Written.Flanked`: an atom has a subtraction on both of its sides.  This is
    the only way to a run of subtractions (`harmless_level`);
  * `parse_exact` puts this together.
-/
import Reckon.Proofs.Relabelling

namespace Reckon

variable {α β γ : Type}

/-! ## Grouping by convention -/

/-- Chains of items, grouped from the left. -/
def Form.leftChain (F : Form α β) : Form α (Chain β) where
  symbols := F.chain.symbols
  expr c := c.links.foldl (fun e l => .binary l.1 e (F.expr l.2)) (F.expr c.first)
  bare := F.chain.bare

/-- Sums of terms of factors, grouped from the left. -/
def Form.leftSum : Form α (Chain (Chain (Factor α))) := Form.factor.leftChain.leftChain

namespace Written

/-- The factors of a formula and the operators between them, as in `level`,
    where formulas in parentheses stand for what they do by convention. -/
def leftLevel : Written α → Chain (Factor α)
  | operand a => ⟨⟨0, .operand a, .leaf a⟩, []⟩
  | group e => ⟨⟨0, .group e, Form.leftSum.expr e.leftLevel.terms⟩, []⟩
  | negate e =>
    ⟨{ e.leftLevel.first with minuses := e.leftLevel.first.minuses + 1 }, e.leftLevel.links⟩
  | binary op l r =>
    ⟨l.leftLevel.first, l.leftLevel.links ++ (op, r.leftLevel.first) :: r.leftLevel.links⟩

/-- The expression that a formula stands for by convention: unary minus signs
    bind tightest, then `*` and `/`, then `+` and `-`, each from left to right. -/
def conventional (e : Written α) : Expr α :=
  Form.leftSum.expr e.leftLevel.terms

-- `a - b - c * -d / (e + f + g)`
example : (Written.binary .sub (.operand 'a') (.binary .sub (.operand 'b') (.binary .mul
      (.operand 'c') (.binary .div (.negate (.operand 'd')) (.group (.binary .add (.operand 'e')
        (.binary .add (.operand 'f') (.operand 'g')))))))).conventional =
    .binary .sub (.binary .sub (.leaf 'a') (.leaf 'b')) (.binary .div (.binary .mul (.leaf 'c')
      (.negate (.leaf 'd'))) (.binary .add (.binary .add (.leaf 'e') (.leaf 'f'))
        (.leaf 'g'))) := by
  rfl

end Written

/-! ## Exact values -/

namespace BinaryOp

/-- The exact result of an operator; nothing can be divided by zero. -/
def exact : BinaryOp → ℚ → ℚ → Option ℚ
  | add, x, y => some (x + y)
  | sub, x, y => some (x - y)
  | mul, x, y => some (x * y)
  | div, x, y => if y = 0 then none else some (x / y)

/-- The exact result of an operator, if its operands have values. -/
def join (op : BinaryOp) (x y : Option ℚ) : Option ℚ := do
  op.exact (← x) (← y)

/-- Sums and products can be regrouped. -/
theorem join_assoc {op : BinaryOp} (h : op = .add ∨ op = .mul) (x y z : Option ℚ) :
    op.join x (op.join y z) = op.join (op.join x y) z := by
  rcases h with rfl | rfl <;> cases x <;> cases y <;> cases z <;>
    simp [join, exact, add_assoc, mul_assoc]

end BinaryOp

/-- The exact value of an expression with the given values of its leaves, none
    if something is divided by zero. -/
def Expr.exact (ρ : α → ℚ) (e : Expr α) : Option ℚ :=
  e.evalM (fun a => some (ρ a)) (fun x => -x) BinaryOp.exact

section Values

variable {ρ : α → ℚ}

theorem Expr.exact_binary (op : BinaryOp) (l r : Expr α) :
    (Expr.binary op l r).exact ρ = op.join (l.exact ρ) (r.exact ρ) := rfl

theorem Expr.exact_negate (e : Expr α) : (Expr.negate e).exact ρ = (e.exact ρ).map Neg.neg := by
  rw [exact, evalM, ← exact]
  cases e.exact ρ <;> rfl

/-! ## Chains from the left -/

namespace Chain

/-- A value and the links behind it, from the left. -/
def valueFrom (v : β → Option ℚ) (x : Option ℚ) (links : List (BinaryOp × β)) : Option ℚ :=
  links.foldl (fun x l => l.1.join x (v l.2)) x

/-- The value of a chain from the left, given those of its items. -/
def value (v : β → Option ℚ) (c : Chain β) : Option ℚ :=
  valueFrom v (v c.first) c.links

variable {v w : β → Option ℚ}

theorem valueFrom_append (x : Option ℚ) (links later : List (BinaryOp × β)) :
    valueFrom v x (links ++ later) = valueFrom v (valueFrom v x links) later :=
  List.foldl_append

theorem value_map (v : γ → Option ℚ) (f : β → γ) (c : Chain β) :
    (c.map f).value v = c.value fun x => v (f x) :=
  List.foldl_map

/-- Only the values of its items matter to the value of a chain. -/
theorem value_congr {c : Chain β} (hfirst : v c.first = w c.first)
    (hlinks : ∀ l ∈ c.links, v l.2 = w l.2) : c.value v = c.value w := by
  rw [value, hfirst]
  exact List.foldl_ext _ _ _ fun x l hl => by rw [hlinks l hl]

/-- Where all operators are one of addition or of multiplication, what is on
    the left can be put to the first item. -/
theorem join_valueFrom {op : BinaryOp} (hop : op = .add ∨ op = .mul)
    {links : List (BinaryOp × β)} (hlinks : ∀ l ∈ links, l.1 = op) (x y : Option ℚ) :
    op.join x (valueFrom v y links) = valueFrom v (op.join x y) links := by
  induction links generalizing y with
  | nil => rfl
  | cons l links ih =>
    have hl : l.1 = op := hlinks l (List.mem_cons_self ..)
    have hrest := ih (fun m hm => hlinks m (List.mem_cons_of_mem _ hm)) (op.join y (v l.2))
    rw [BinaryOp.join_assoc hop] at hrest
    rw [valueFrom, List.foldl_cons, hl]
    exact hrest.trans (by rw [valueFrom, valueFrom, List.foldl_cons, hl])

end Chain

open Chain

namespace Form

variable {F : Form α β}

/-- Chains that are grouped from the left have their value from the left. -/
theorem exact_leftChain (c : Chain β) :
    (F.leftChain.expr c).exact ρ = c.value fun x => (F.expr x).exact ρ :=
  (List.foldl_hom (fun e => Expr.exact ρ e) fun _ _ => rfl).symm

/-! ## Runs -/

/-- Two links are not subtractions in one run. -/
def Harmless (F : Form α β) (l m : BinaryOp × β) : Prop :=
  F.sameRun l m = true → l.1 ≠ .sub

theorem op_eq_of_run {l : BinaryOp × β} {links : List (BinaryOp × β)}
    (h : (l :: links).IsChain fun l m => F.sameRun l m = true) : ∀ m ∈ links, m.1 = l.1 := by
  induction links generalizing l with
  | nil => nofun
  | cons m links ih =>
    obtain ⟨hsame, hrest⟩ := List.isChain_cons_cons.1 h
    have hop : m.1 = l.1 := by
      simp only [sameRun, Bool.and_eq_true, decide_eq_true_eq] at hsame
      exact hsame.1.1.symm
    intro k hk
    rcases List.mem_cons.1 hk with rfl | hk
    · exact hop
    · rw [ih hrest k hk, hop]

/-- **A run that is grouped from the right** has the same value as from the
    left, if it is not one of subtractions. -/
theorem exact_groupRight {run : List (BinaryOp × β)}
    (hrun : run.IsChain fun l m => F.sameRun l m = true) (hharmless : run.IsChain F.Harmless)
    (e : Expr α) :
    (F.groupRight e run).exact ρ = valueFrom (fun x => (F.expr x).exact ρ) (e.exact ρ) run := by
  induction run generalizing e with
  | nil => rfl
  | cons l links ih =>
    have hrest := ih hrun.tail hharmless.tail (F.expr l.2)
    obtain ⟨op, x⟩ := l
    rw [groupRight, Expr.exact_binary, hrest]
    cases links with
    | nil => rfl
    | cons m links =>
      have hsame := (List.isChain_cons_cons.1 hrun).1
      have hsub : op ≠ .sub := (List.isChain_cons_cons.1 hharmless).1 hsame
      have hdiv : op ≠ .div := by
        simp only [sameRun, Bool.and_eq_true, bne_iff_ne] at hsame
        exact hsame.1.2
      have hop : op = .add ∨ op = .mul := by cases op <;> simp_all
      exact join_valueFrom hop (op_eq_of_run hrun) _ _

/-- **A chain** has its value from the left, if none of its runs is one of
    subtractions. -/
theorem exact_chain {c : Chain β} (h : c.links.IsChain F.Harmless) :
    (F.chain.expr c).exact ρ = c.value fun x => (F.expr x).exact ρ := by
  have key (runs : List (List (BinaryOp × β)))
      (hruns : ∀ run ∈ runs, run.IsChain (fun l m => F.sameRun l m = true) ∧
        run.IsChain F.Harmless) (e : Expr α) :
      (runs.foldl F.groupRight e).exact ρ =
        valueFrom (fun x => (F.expr x).exact ρ) (e.exact ρ) runs.flatten := by
    induction runs generalizing e with
    | nil => rfl
    | cons run runs ih =>
      obtain ⟨hrun, hharmless⟩ := hruns run (List.mem_cons_self ..)
      rw [List.foldl_cons, ih fun r hr => hruns r (List.mem_cons_of_mem _ hr),
        exact_groupRight hrun hharmless, List.flatten_cons, valueFrom_append]
  have hruns := key (c.links.splitBy F.sameRun) (fun run hrun => ?_) (F.expr c.first)
  · rw [List.flatten_splitBy] at hruns
    exact hruns
  · have hwithin := List.infix_of_mem_flatten hrun
    rw [List.flatten_splitBy] at hwithin
    exact ⟨List.isChain_of_mem_splitBy hrun, h.infix hwithin⟩

/-! ## Levels -/

theorem first_split (x : β) (links : List (BinaryOp × β)) :
    (Chain.split x links).first.first = x := by
  cases links with
  | nil => rfl
  | cons l links =>
    rw [Chain.split]
    split <;> rfl

/-- The operators in terms are `*` and `/`. -/
theorem ops_split (x : β) (links : List (BinaryOp × β)) :
    (∀ l ∈ (Chain.split x links).first.links, l.1 = .mul ∨ l.1 = .div) ∧
      ∀ t ∈ (Chain.split x links).links, ∀ l ∈ t.2.links, l.1 = .mul ∨ l.1 = .div := by
  induction links generalizing x with
  | nil => simp [Chain.split]
  | cons l links ih =>
    obtain ⟨hfirst, hrest⟩ := ih l.2
    rw [Chain.split]
    split
    · rename_i hop
      refine ⟨fun m hm => ?_, hrest⟩
      rcases List.mem_cons.1 hm with rfl | hm
      · exact hop
      · exact hfirst m hm
    · refine ⟨fun m hm => absurd hm List.not_mem_nil, fun t ht => ?_⟩
      rcases List.mem_cons.1 ht with rfl | ht
      · exact hfirst
      · exact hrest t ht

/-- Where a term is one item only, the operator behind it is the next one. -/
theorem head_links_split {x : β} {links : List (BinaryOp × β)}
    (hone : (Chain.split x links).first.links = []) :
    ∀ t ∈ (Chain.split x links).links.head?, ∃ l ∈ links.head?, l.1 = t.1 := by
  cases links with
  | nil => nofun
  | cons l links =>
    rw [Chain.split] at hone ⊢
    split at hone
    · cases hone
    · rename_i hop
      rw [if_neg hop]
      intro t ht
      cases ht
      exact ⟨l, rfl, rfl⟩

/-- The terms of a level are no run of subtractions if its factors are none. -/
theorem harmless_split {x : β} {links : List (BinaryOp × β)} (h : links.IsChain F.Harmless) :
    (Chain.split x links).links.IsChain F.chain.Harmless := by
  induction links generalizing x with
  | nil => exact .nil
  | cons l links ih =>
    obtain ⟨hnext, hrest⟩ := List.isChain_cons.1 h
    rw [Chain.split]
    split
    · exact ih hrest
    · refine List.isChain_cons.2 ⟨fun t ht hsame hsub => ?_, ih hrest⟩
      simp only [sameRun, chain, Bool.and_eq_true, decide_eq_true_eq, List.isEmpty_iff,
        first_split] at hsame
      obtain ⟨⟨hop, hdiv⟩, hone, hbare⟩ := hsame
      obtain ⟨m, hm, hmt⟩ := head_links_split hone t ht
      refine hnext m hm ?_ hsub
      simp only [sameRun, Bool.and_eq_true, decide_eq_true_eq, hmt, hop, hbare, and_true, true_and]
      exact hop ▸ hdiv

/-- The value of a level: that of its terms from the left, which have theirs
    from the left. -/
def total (v : β → Option ℚ) (c : Chain β) : Option ℚ :=
  c.terms.value fun t => t.value v

theorem total_map (v : γ → Option ℚ) (f : β → γ) (c : Chain β) :
    total v (c.map f) = total (fun x => v (f x)) c := by
  rw [total, Chain.terms_map, value_map]
  simp only [value_map, total]

theorem exact_leftTerms (c : Chain β) :
    (F.leftChain.leftChain.expr c.terms).exact ρ = total (fun x => (F.expr x).exact ρ) c := by
  rw [exact_leftChain, total]
  simp only [exact_leftChain]

/-- **A level** has its value from the left, if no run is one of subtractions. -/
theorem exact_terms {c : Chain β} (h : c.links.IsChain F.Harmless) :
    (F.chain.chain.expr c.terms).exact ρ = total (fun x => (F.expr x).exact ρ) c := by
  -- no operator in a term is a subtraction
  have hterm {links : List (BinaryOp × β)} (hops : ∀ l ∈ links, l.1 = .mul ∨ l.1 = .div) :
      links.IsChain F.Harmless := by
    refine List.isChain_iff_forall_rel_of_append_cons_cons.2 fun l m ls ms hlinks _ hsub => ?_
    have hop := hops l (by simp [hlinks])
    simp [hsub] at hop
  obtain ⟨hfirst, hrest⟩ := ops_split c.first c.links
  have hterms : (F.chain.chain.expr c.terms).exact ρ = _ := exact_chain (harmless_split h)
  rw [hterms, total]
  exact value_congr (exact_chain (hterm hfirst)) fun t ht => exact_chain (hterm (hrest t ht))

theorem exact_factor (x : Factor α) :
    (Form.factor.expr x).exact ρ = x.minuses.repeat (Option.map Neg.neg) (x.expr.exact ρ) := by
  show (x.minuses.repeat Expr.negate x.expr).exact ρ = _
  induction x.minuses with
  | zero => rfl
  | succ n ih => exact (Expr.exact_negate _).trans (congrArg _ ih)

end Form

/-! ## Subtractions on both sides -/

/-- The binary minus. -/
abbrev Symbol.minus : Symbol α := .operator (.binary .sub)

namespace Written

/-- Atoms are operands and formulas in parentheses. -/
def isAtom : Written α → Bool
  | operand _ | group _ => true
  | negate _ | binary _ _ _ => false

/-- There is an atom in a formula, at any depth, that has a binary minus
    directly before it and another one directly behind it. -/
def Flanked (e : Written α) : Prop :=
  ∃ before atom behind, isAtom atom = true ∧
    e.symbols = before ++ .minus :: (atom.symbols ++ .minus :: behind)

theorem Flanked.of_infix {e f : Written α} (h : e.Flanked) (hwithin : e.symbols <:+: f.symbols) :
    f.Flanked := by
  obtain ⟨before, atom, behind, hatom, he⟩ := h
  obtain ⟨l, r, hf⟩ := hwithin
  refine ⟨l ++ before, atom, behind ++ r, hatom, ?_⟩
  rw [← hf, he]
  simp

theorem isAtom_level (e : Written α) :
    e.level.first.atom.isAtom = true ∧ ∀ l ∈ e.level.links, l.2.atom.isAtom = true := by
  induction e with
  | operand a => exact ⟨rfl, nofun⟩
  | group e _ => exact ⟨rfl, nofun⟩
  | negate e ih => exact ih
  | binary op l r ihl ihr =>
    refine ⟨ihl.1, fun m hm => ?_⟩
    rcases List.mem_append.1 hm with hm | hm
    · exact ihl.2 m hm
    · rcases List.mem_cons.1 hm with rfl | hm
      · exact ihr.1
      · exact ihr.2 m hm

/-- **Only flanked atoms** make a run of subtractions. -/
theorem harmless_level {e : Written α} (h : ¬ e.Flanked) :
    e.level.links.IsChain Form.factor.Harmless := by
  refine List.isChain_iff_forall_rel_of_append_cons_cons.2 fun l m ls ms hlinks hsame hsub => h ?_
  simp only [Form.sameRun, Form.factor, Bool.and_eq_true, decide_eq_true_eq, beq_iff_eq] at hsame
  obtain ⟨⟨hop, -⟩, hbare⟩ := hsame
  have hatom := (isAtom_level e).2 l (by simp [hlinks])
  have hsymbols := symbols_level e
  rw [hlinks, Form.linkSymbols_append, Form.linkSymbols_cons, Form.linkSymbols_cons, ← hop, hsub]
    at hsymbols
  have hfactor : Form.factor.symbols l.2 = l.2.atom.symbols := by simp [Form.factor, hbare]
  refine ⟨Form.factor.symbols e.level.first ++ Form.factor.linkSymbols ls, l.2.atom,
    Form.factor.symbols m.2 ++ Form.factor.linkSymbols ms, hatom, ?_⟩
  rw [← hsymbols, hfactor, List.append_assoc]

/-! ## Exact values of formulas -/

/-- What matters of a factor to the value of a level. -/
def weigh (ρ : α → ℚ) (x : Factor α) : Nat × Option ℚ :=
  (x.minuses, x.expr.exact ρ)

/-- A formula has the value that it has by convention, if the atoms of its
    level have. -/
theorem exact_of_level {e : Written α} (h : ¬ e.Flanked)
    (hlevel : e.level.map (weigh ρ) = e.leftLevel.map (weigh ρ)) :
    e.grouped.exact ρ = e.conventional.exact ρ := by
  have hfactor : (fun x : Factor α => (Form.factor.expr x).exact ρ) =
      fun x => (weigh ρ x).1.repeat (Option.map Neg.neg) (weigh ρ x).2 :=
    funext fun x => Form.exact_factor x
  have hvalue (c : Chain (Factor α)) := Form.total_map
    (fun y : Nat × Option ℚ => y.1.repeat (Option.map Neg.neg) y.2) (weigh ρ) c
  have hgrouped : e.grouped.exact ρ = _ := Form.exact_terms (harmless_level h)
  have hleft : e.conventional.exact ρ = _ := Form.exact_leftTerms e.leftLevel
  rw [hgrouped, hleft, hfactor, ← hvalue, ← hvalue, hlevel]

theorem level_weigh {e : Written α} (h : ¬ e.Flanked) :
    e.level.map (weigh ρ) = e.leftLevel.map (weigh ρ) := by
  induction e with
  | operand a => rfl
  | group e ih =>
    have he : ¬ e.Flanked := fun he => h (he.of_infix ⟨[.openParen], [.closeParen], rfl⟩)
    have hvalue := exact_of_level he (ih he)
    exact congrArg (fun x : Option ℚ => (⟨(0, x), []⟩ : Chain (Nat × Option ℚ))) hvalue
  | negate e ih =>
    have hlevel := ih fun he => h (he.of_infix ⟨[.operator .negate], [], by simp [symbols]⟩)
    exact congrArg (fun c : Chain (Nat × Option ℚ) =>
      (⟨(c.first.1 + 1, c.first.2), c.links⟩ : Chain (Nat × Option ℚ))) hlevel
  | binary op l r ihl ihr =>
    have hl := ihl fun hl => h (hl.of_infix (List.prefix_append _ _).isInfix)
    have hr := ihr fun hr => h (hr.of_infix ⟨l.symbols ++ [.operator (.binary op)], [],
      by simp [symbols]⟩)
    have hboth := congrArg₂ (fun c d : Chain (Nat × Option ℚ) =>
      (⟨c.first, c.links ++ (op, d.first) :: d.links⟩ : Chain (Nat × Option ℚ))) hl hr
    simpa only [level, leftLevel, Chain.map, List.map_append, List.map_cons] using hboth

/-- **Regrouping is exact**, if no atom has subtractions on both sides. -/
theorem exact_grouped {e : Written α} (h : ¬ e.Flanked) (ρ : α → ℚ) :
    e.grouped.exact ρ = e.conventional.exact ρ :=
  exact_of_level h (level_weigh h)

end Written

end Values

/-- **Grouping runs from the right is harmless** but for subtractions.  Let no
    atom of a formula, at any depth, have a binary minus directly on both of
    its sides.  Then what its text is parsed as has the exact value that it has
    by convention, for any values of its leaves, and none just in case something
    is divided by zero by convention. -/
theorem parse_exact (e : Written α) (lit : α → Literal) (h : ¬ e.Flanked) :
    Formula.parse (e.map lit).text = .ok ((e.grouped.map lit).map Literal.operand) ∧
      ∀ ρ : α → ℚ, e.grouped.exact ρ = e.conventional.exact ρ := by
  refine ⟨?_, Written.exact_grouped h⟩
  obtain ⟨ts, htokens, hlexemes⟩ := tokenize_text (e.map lit)
  rw [Formula.parse_of_lexemes htokens hlexemes, Written.grouped_map, Written.grouped_map]

/-- Two subtractions with a product between them. -/
theorem parse_exact_product :
    let x : Literal := .var "x" (.name (by decide) (by simp))
    let y : Literal := .var "y" (.name (by decide) (by simp))
    let e : Written Bool := .binary .sub (.operand true) (.binary .sub
      (.binary .mul (.operand false) (.operand true)) (.operand false))
    ¬ e.Flanked ∧
      Formula.parse "x-y*x-y" = .ok ((e.grouped.map fun b => bif b then x else y).map
        Literal.operand) ∧
      ∀ ρ : Bool → ℚ, e.grouped.exact ρ = e.conventional.exact ρ := by
  intro x y e
  have h : ¬ e.Flanked := by
    rintro ⟨before, atom, behind, hatom, he⟩
    cases atom <;> simp [e, Written.symbols, Written.isAtom, List.cons_eq_append_iff] at he hatom
  obtain ⟨hparse, hexact⟩ := parse_exact e (fun b => bif b then x else y) h
  exact ⟨h, hparse, hexact⟩

-- a run of subtractions is the exception
example : let e : Written Char := .binary .sub (.operand 'a') (.binary .sub (.operand 'b')
      (.operand 'c'))
    e.grouped.exact (fun _ => 1) = some 1 ∧ e.conventional.exact (fun _ => 1) = some (-1) := by
  decide +kernel

end Reckon
