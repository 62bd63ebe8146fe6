/-
  Reckon — what is accepted.

  An operator takes the operands that are there when it is applied, wherever
  they have been written.  So more is accepted than formulas: in `(x)y-` both
  operands come before their minus.  But this is all that can go wrong.  An
  operator that comes too late needs two operands side by side, and if no
  operand begins where another one ends, what is accepted is a formula
  (`derives_of_build`).

  The invariant looks at what has been read since the innermost parenthesis
  was opened (`Segment`).  By `excess` it counts the operands there, less those
  that the waiting operators use up; applying an operator does not change it.
-/
import Reckon.Proofs.Spelling

namespace Reckon

open Build

def Symbol.kind : Symbol Operand → Kind
  | .operand (.number _) => .number
  | .operand (.var _) => .var
  | .operator o => .operator o
  | .openParen => .openParen
  | .closeParen => .closeParen

theorem Token.kind_of_symbol {t : Token} {s : Symbol Operand} (h : t.symbol = .ok s) :
    s.kind = t.kind := by
  unfold Token.symbol at h
  split at h <;> rename_i hk
  · cases h; rw [hk]; rfl
  · obtain ⟨x, -, hx⟩ := bind_eq_ok.1 h
    cases hx; rw [hk]; rfl
  all_goals cases h; rw [hk]; rfl

/-! ## Segments -/

/-- Whether a list of kinds ends with an operand. -/
def endsOperand (w : List Kind) : Bool :=
  w.getLast?.any Kind.endsOperand

@[simp] theorem endsOperand_concat (w : List Kind) (k : Kind) :
    endsOperand (w ++ [k]) = k.endsOperand := by
  simp [endsOperand]

theorem endsOperand_append {v w : List Kind} (h : w ≠ []) :
    endsOperand (v ++ w) = endsOperand w := by
  rw [endsOperand, List.getLast?_append_of_ne_nil _ h, endsOperand]

theorem Derives.endsOperand {w : List Kind} (h : Derives w) : endsOperand w = true := by
  induction h with
  | var | number => rfl
  | group _ _ => rw [← List.cons_append, endsOperand_concat]; rfl
  | @negate w h ih =>
    have hw : w ≠ [] := by rintro rfl; cases ih
    rw [← List.singleton_append, endsOperand_append hw, ih]
  | @binary v w op _ _ _ ih =>
    have hw : w ≠ [] := by rintro rfl; cases ih
    rw [endsOperand_append (List.cons_ne_nil _ _), ← List.singleton_append, endsOperand_append hw,
      ih]

/-- Whether any operand behind a list of kinds makes it a formula. -/
def Awaits (w : List Kind) : Prop :=
  ∀ e, Derives e → Derives (w ++ e)

/-- What can be said of the kinds `v` inside some parentheses, or outside of
    all, by the number `n` of operands in excess. -/
def Segment (v : List Kind) (n : Int) : Prop :=
  if endsOperand v = true then n ≤ 1 ∧ (n = 1 → Derives v) else n ≤ 0 ∧ (n = 0 → Awaits v)

namespace Segment

variable {v e : List Kind} {n : Int}

theorem nil : Segment [] 0 :=
  ⟨le_rfl, fun _ _ h => h⟩

theorem operand (h : Segment v n) (hv : endsOperand v = false) (he : Derives e) :
    Segment (v ++ e) (n + 1) := by
  have hne : e ≠ [] := by rintro rfl; cases he.endsOperand
  rw [Segment, if_neg (by simp [hv])] at h
  rw [Segment, if_pos (by rw [endsOperand_append hne, he.endsOperand])]
  exact ⟨by omega, fun hn => h.2 (by omega) e he⟩

theorem negate (h : Segment v n) (hv : endsOperand v = false) :
    Segment (v ++ [.operator .negate]) n := by
  rw [Segment, if_neg (by simp [hv])] at h
  rw [Segment, if_neg (by rw [endsOperand_concat]; exact Bool.false_ne_true)]
  refine ⟨h.1, fun hn e he => ?_⟩
  rw [List.append_assoc]
  exact h.2 hn _ he.negate

theorem binary (h : Segment v n) (op : BinaryOp) :
    Segment (v ++ [.operator (.binary op)]) (n - 1) := by
  rw [Segment] at h
  rw [Segment, if_neg (by rw [endsOperand_concat]; exact Bool.false_ne_true)]
  split at h
  · refine ⟨by omega, fun hn e he => ?_⟩
    rw [List.append_assoc]
    exact (h.2 (by omega)).binary op he
  · exact ⟨by omega, fun hn => by omega⟩

theorem derives (h : Segment v 1) : Derives v := by
  rw [Segment] at h
  split at h
  · exact h.2 rfl
  · omega

end Segment

/-! ## The excess of operands -/

/-- The binary operators that wait in the innermost parentheses. -/
def joins : List Pending → Nat
  | .operator (.binary _) :: pending => joins pending + 1
  | .operator .negate :: pending => joins pending
  | _ => 0

/-- The operands in the innermost parentheses, less the binary operators that
    wait there. -/
def excess (pending : List Pending) (operands : Nat) : Int :=
  operands - floor pending - joins pending

variable {α : Type}

/-- **Applying an operator does not change the excess.** -/
theorem excess_reduce {o : Operator} {pending : List Pending} {es es' : List (Expr α)}
    (h : reduce o pending es = .ok es') :
    excess pending es'.length = excess (.operator o :: pending) es.length := by
  obtain ⟨e, rest, rfl, rfl, rfl, -⟩ | ⟨op, l, r, rest, rfl, rfl, rfl, -⟩ := reduce_eq_ok h
  · rfl
  · simp only [excess, joins, floor, List.length_cons]
    omega

/-! ## Around the innermost parentheses -/

/-- The kinds `u` have been read around the innermost parentheses, up to where
    they were opened, and no operand ends before an open parenthesis. -/
inductive Around : List Kind → List Pending → Prop
  | nil : Around [] []
  | operator {u : List Kind} {pending : List Pending} (o : Operator) : Around u pending →
      Around u (.operator o :: pending)
  | group {u v : List Kind} {pending : List Pending} {height : Nat} : Around u pending →
      endsOperand v = false → Segment v (excess pending height) →
      Around (u ++ v ++ [.openParen]) (.group height :: pending)

theorem Around.of_operator {u : List Kind} {o : Operator} {pending : List Pending}
    (h : Around u (.operator o :: pending)) : Around u pending := by
  cases h with
  | operator _ h => exact h

theorem Around.endsOperand_append {u : List Kind} {pending : List Pending} (h : Around u pending)
    (v : List Kind) : endsOperand (u ++ v) = endsOperand v := by
  by_cases hv : v = []
  · subst hv
    rw [List.append_nil]
    induction h with
    | nil => rfl
    | operator _ _ ih => exact ih
    | group => exact endsOperand_concat ..
  · exact Reckon.endsOperand_append hv

/-- What a state says of the kinds that have led to it. -/
inductive Accepts (w : List Kind) (b : Build α) : Prop
  | intro (u v : List Kind) : w = u ++ v → Around u b.pending →
      Segment v (excess b.pending b.operands.length) → Accepts w b

theorem Accepts.empty : Accepts [] (empty : Build α) :=
  .intro [] [] rfl .nil .nil

theorem settles_keeps {p : Nat} {b c : Build α} (h : Settles p b c) {u : List Kind}
    (hu : Around u b.pending) :
    Around u c.pending ∧ excess c.pending c.operands.length =
      excess b.pending b.operands.length := by
  induction h with
  | refl => exact ⟨hu, rfl⟩
  | reduce _ hreduce _ ih =>
    obtain ⟨haround, hexcess⟩ := ih hu.of_operator
    exact ⟨haround, hexcess.trans (excess_reduce hreduce)⟩

/-! ## Runs -/

namespace Accepts

variable {w : List Kind} {b c : Build Operand}

theorem operand (hb : Accepts w b) (hw : Reckon.endsOperand w = false) (a : Operand) :
    Accepts (w ++ [(Symbol.operand a).kind]) { b with operands := .leaf a :: b.operands } := by
  obtain ⟨u, v, rfl, hu, hv⟩ := hb
  rw [hu.endsOperand_append] at hw
  have hkind : Derives [(Symbol.operand a).kind] := by
    cases a with
    | number => exact .number
    | var => exact .var
  have hexcess : excess b.pending (b.operands.length + 1) =
      excess b.pending b.operands.length + 1 := by
    simp only [excess]
    omega
  refine ⟨u, _, List.append_assoc .., hu, ?_⟩
  rw [List.length_cons, hexcess]
  exact hv.operand hw hkind

/-- A binary operator may come too late, behind operands that are side by
    side, but a unary minus must come before its operand. -/
theorem operator (hb : Accepts w b) {o : Operator} (h : b.shift o = .ok c)
    (hw : o = .negate → Reckon.endsOperand w = false) : Accepts (w ++ [.operator o]) c := by
  obtain ⟨u, v, rfl, hu, hv⟩ := hb
  rw [hu.endsOperand_append] at hw
  obtain ⟨d, hsettles, rfl⟩ := settles_of_shift h
  obtain ⟨haround, hexcess⟩ := settles_keeps hsettles hu
  refine ⟨u, _, List.append_assoc .., haround.operator o, ?_⟩
  rw [← hexcess] at hv
  cases o with
  | negate => exact hv.negate (hw rfl)
  | binary op =>
    have hbinary : excess (.operator (.binary op) :: d.pending) d.operands.length =
        excess d.pending d.operands.length - 1 := by
      simp only [excess, floor, joins]
      omega
    rw [hbinary]
    exact hv.binary op

theorem openParen (hb : Accepts w b) (hw : Reckon.endsOperand w = false) :
    Accepts (w ++ [.openParen]) { b with pending := .group b.operands.length :: b.pending } := by
  obtain ⟨u, v, rfl, hu, hv⟩ := hb
  rw [hu.endsOperand_append] at hw
  refine ⟨u ++ v ++ [.openParen], [], (List.append_nil _).symm, .group hu hw hv, ?_⟩
  have hexcess : excess (.group b.operands.length :: b.pending) b.operands.length = 0 := by
    simp only [excess, floor, joins]
    omega
  rw [hexcess]
  exact .nil

/-- What is inside parentheses that can be closed is a formula, and so the
    group is one operand more for what is around it. -/
theorem closeParen (hb : Accepts w b) (h : closeGroup b.pending b.operands = .ok c) :
    Accepts (w ++ [.closeParen]) c := by
  obtain ⟨u, v, rfl, hu, hv⟩ := hb
  obtain ⟨height, hlen, hsettles⟩ := settles_of_closeGroup h
  obtain ⟨haround, hexcess⟩ := settles_keeps hsettles hu
  have hone : excess (.group height :: c.pending) c.operands.length = 1 := by
    simp only [excess, floor, joins, hlen]
    omega
  rw [← hexcess, hone] at hv
  cases haround with
  | @group u' v' _ _ hu' hends hv' =>
    have hmore : excess c.pending c.operands.length = excess c.pending height + 1 := by
      simp only [excess, hlen]
      omega
    refine ⟨u', v' ++ (.openParen :: (v ++ [.closeParen])), by simp, hu', ?_⟩
    rw [hmore]
    exact hv'.operand hends hv.derives.group

end Accepts

/-- **One symbol more.**  No operand may begin where another one ends, and no
    minus there be unary. -/
theorem take_accepts {w : List Kind} {b c : Build Operand} (hb : Accepts w b)
    {s : Symbol Operand} (h : b.take s = .ok c)
    (hapart : s.kind.startsOperand = true → endsOperand w = false)
    (hunary : s.kind = .operator .negate → endsOperand w = false) :
    Accepts (w ++ [s.kind]) c := by
  cases s with
  | operand a =>
    cases h
    exact hb.operand (hapart (by cases a <;> rfl)) a
  | operator o => exact hb.operator h fun ho => hunary (ho ▸ rfl)
  | openParen =>
    cases h
    exact hb.openParen (hapart rfl)
  | closeParen => exact hb.closeParen h

/-- **The symbols of a run**, one after the other. -/
theorem run_accepts {ss : List (Symbol Operand)} {w : List Kind} {b c : Build Operand}
    (hb : Accepts w b) (h : run b ss = .ok c)
    (hapart : (w ++ ss.map Symbol.kind).IsChain Kind.Apart)
    (htold : Told w.getLast? (ss.map Symbol.kind)) :
    Accepts (w ++ ss.map Symbol.kind) c := by
  induction ss generalizing w b with
  | nil =>
    cases h
    rw [List.map_nil, List.append_nil]
    exact hb
  | cons s ss ih =>
    obtain ⟨d, hd, h⟩ := bind_eq_ok.1 h
    obtain ⟨hs, htold⟩ := htold
    have hd' : Accepts (w ++ [s.kind]) d := by
      refine take_accepts hb hd (fun hstarts => ?_) (fun hneg => ?_)
      · obtain ⟨-, -, hnext⟩ := List.isChain_append.1 hapart
        cases hlast : w.getLast? with
        | none => rw [endsOperand, hlast]; rfl
        | some k =>
          rw [endsOperand, hlast, Option.any_some]
          have := hnext k hlast s.kind rfl
          exact Bool.eq_false_iff.2 fun hk => this ⟨hk, hstarts⟩
      · rw [hneg] at hs
        by_contra hends
        have hends : w.getLast?.any Kind.endsOperand = true := (Bool.not_eq_false _).mp hends
        rw [Kind.raw, Kind.after, hends] at hs
        cases hs
    rw [List.map_cons, List.append_cons] at hapart ⊢
    refine ih hd' h hapart ?_
    rw [List.getLast?_concat]
    exact htold

/-- **What is built without operands side by side is a formula.** -/
theorem derives_of_build {ss : List (Symbol Operand)} {b : Build Operand} {f : Formula}
    (hrun : run empty ss = .ok b) (hfinish : finish b.pending b.operands = .ok f)
    (hapart : (ss.map Symbol.kind).IsChain Kind.Apart) (htold : Told none (ss.map Symbol.kind)) :
    Derives (ss.map Symbol.kind) := by
  obtain ⟨u, v, heq, hu, hv⟩ := run_accepts .empty hrun hapart htold
  obtain ⟨haround, hexcess⟩ := settles_keeps (settles_of_finish hfinish) hu
  cases haround
  rw [← hexcess] at hv
  rw [List.nil_append, List.nil_append] at heq
  rw [heq]
  exact hv.derives

/-! ## Texts -/

theorem told_of_tokenize {text : String} {ts : List Token} (h : tokenize text = .ok ts) :
    Told none (ts.map Token.kind) := by
  obtain ⟨raw, hscan, -, rfl⟩ := tokenize_eq_ok_iff.1 h
  exact told_resolveMinusAfter (kind_ne_negate_of_scan hscan) none

/-- **What is parsed is a formula, unless operands are side by side.**  The
    tokens of a text that is parsed are derived by the grammar just in case no
    operand begins where another one ends. -/
theorem derives_iff_apart {text : String} {ts : List Token} {f : Formula}
    (htokens : tokenize text = .ok ts) (hparse : Formula.parse text = .ok f) :
    Derives (ts.map Token.kind) ↔ (ts.map Token.kind).IsChain Kind.Apart := by
  refine ⟨Derives.apart, fun hapart => ?_⟩
  obtain ⟨ts', htokens', ss, hss, b, hrun, hfinish⟩ := Formula.parse_eq_ok_iff.1 hparse
  obtain rfl : ts = ts' := Except.ok.inj (htokens.symm.trans htokens')
  have hkinds : ss.map Symbol.kind = ts.map Token.kind := by
    rw [← List.forall₂_eq_eq_eq, List.forall₂_map_left_iff, List.forall₂_map_right_iff]
    exact hss.flip.imp fun t s => Token.kind_of_symbol
  have htold := told_of_tokenize htokens
  rw [← hkinds] at hapart htold ⊢
  exact derives_of_build hrun hfinish hapart htold

theorem derives_negated_factor :
    ∃ ts, tokenize "(a-b)*-c" = .ok ts ∧ Derives (ts.map Token.kind) := by
  have htokens : tokenize "(a-b)*-c" = .ok [⟨.openParen, "(", 0, 1⟩, ⟨.var, "a", 1, 2⟩,
      ⟨.operator (.binary .sub), "-", 2, 3⟩, ⟨.var, "b", 3, 4⟩, ⟨.closeParen, ")", 4, 5⟩,
      ⟨.operator (.binary .mul), "*", 5, 6⟩, ⟨.operator .negate, "-", 6, 7⟩,
      ⟨.var, "c", 7, 8⟩] := by cbv
  have hparse : Formula.parse "(a-b)*-c" =
      .ok (.binary .mul (.binary .sub (.leaf (.var "a")) (.leaf (.var "b")))
        (.negate (.leaf (.var "c")))) := by cbv
  exact ⟨_, htokens, (derives_iff_apart htokens hparse).2 (by decide)⟩

/-- Two operands and then their operator are accepted, which are no formula. -/
theorem juxtaposed_accepted :
    ∃ ts, tokenize "(x)y-" = .ok ts ∧
      Formula.parse "(x)y-" = .ok (.binary .sub (.leaf (.var "x")) (.leaf (.var "y"))) ∧
        ¬ Derives (ts.map Token.kind) := by
  have htokens : tokenize "(x)y-" = .ok [⟨.openParen, "(", 0, 1⟩, ⟨.var, "x", 1, 2⟩,
      ⟨.closeParen, ")", 2, 3⟩, ⟨.var, "y", 3, 4⟩,
      ⟨.operator (.binary .sub), "-", 4, 5⟩] := by cbv
  refine ⟨_, htokens, by cbv, fun h => ?_⟩
  have := h.apart
  revert this
  decide

end Reckon
