/-
  Reckon — telling minus signs apart, one by one and all at once.

  A minus is told apart by the token before it, and that may be a minus which
  has just been told apart itself.  Nothing depends on this: whether an operand
  ends with a token is the same before and afterwards.

  * `OperandBefore`: an operand ends directly before a place;
  * `resolveAtOnce` tells all signs apart by the tokens as they were, which is
    the same as to tell one after the other (`resolveMinusAfter_eq_atOnce`);
  * `resolveMinus_resolveMinus`: nothing is left to tell apart;
  * `resolveMinus_append_iff`: lists are told apart by themselves just where
    the first one does not end with an operand.
-/
import Reckon.Proofs.Grammar

namespace Reckon

/-! ## What is before a place -/

/-- An operand ends with the token directly before the place `i`. -/
def OperandBefore (ts : List Token) (i : Nat) : Prop :=
  ∃ j u, i = j + 1 ∧ ts[j]? = some u ∧
    (u.kind = .number ∨ u.kind = .var ∨ u.kind = .closeParen)

theorem Kind.endsOperand_iff {k : Kind} :
    k.endsOperand = true ↔ k = .number ∨ k = .var ∨ k = .closeParen := by
  cases k <;> simp [Kind.endsOperand]

theorem operandBefore_iff {ts : List Token} {i : Nat} :
    OperandBefore ts i ↔ (kindBefore none ts i).any Kind.endsOperand = true := by
  cases i with
  | zero => exact iff_of_false (fun ⟨_, _, h, _⟩ => nomatch h) nofun
  | succ i =>
    simp only [OperandBefore, kindBefore, Nat.succ_inj, exists_and_left, exists_eq_left',
      Option.any_map, Option.any_eq_true, Kind.endsOperand_iff]

theorem kindBefore_length (ts : List Token) :
    kindBefore none ts ts.length = ts.getLast?.map Token.kind := by
  cases ts with
  | nil => rfl
  | cons t ts => rw [List.getLast?_eq_getElem?]; rfl

/-! ## All at once -/

/-- Tokens behind one of the kind `previous`, each told apart by the one that
    was before it from the outset. -/
def resolveAtOnce (previous : Option Kind) (ts : List Token) : List Token :=
  ts.mapIdx fun i t => { t with kind := t.kind.after (kindBefore previous ts i) }

/-- **One by one or all at once**, the signs are told apart alike. -/
theorem resolveMinusAfter_eq_atOnce (previous : Option Kind) (ts : List Token) :
    resolveMinusAfter previous ts = resolveAtOnce previous ts := by
  induction ts generalizing previous with
  | nil => rfl
  | cons t ts ih =>
    simp only [resolveMinusAfter_cons, ih, resolveAtOnce, List.mapIdx_cons, kindBefore_cons]
    rfl

theorem getElem?_resolveMinus (ts : List Token) (i : Nat) :
    (resolveMinus ts)[i]? =
      ts[i]?.map fun t => { t with kind := t.kind.after (kindBefore none ts i) } := by
  rw [resolveMinus, resolveMinusAfter_eq_atOnce, resolveAtOnce, List.getElem?_mapIdx]

theorem length_resolveMinus (ts : List Token) : (resolveMinus ts).length = ts.length := by
  rw [resolveMinus, resolveMinusAfter_eq_atOnce, resolveAtOnce, List.length_mapIdx]

/-! ## Minus signs and other kinds -/

theorem Kind.after_of_ne {k : Kind} (h : k ≠ .operator (.binary .sub)) (previous : Option Kind) :
    k.after previous = k :=
  if_neg fun hk => h hk.1

theorem Kind.after_of_ends {previous : Option Kind} (h : previous.any Kind.endsOperand = true)
    (k : Kind) : k.after previous = k :=
  if_neg fun hk => by simp [h] at hk

theorem Kind.sub_after {previous : Option Kind} (h : ¬ previous.any Kind.endsOperand = true) :
    (Kind.operator (.binary .sub)).after previous = .operator .negate :=
  if_pos ⟨rfl, by simpa using h⟩

theorem Kind.after_after (previous : Option Kind) (k : Kind) :
    (k.after previous).after previous = k.after previous := by
  by_cases hends : previous.any Kind.endsOperand = true
  · exact Kind.after_of_ends hends _
  · by_cases hk : k = .operator (.binary .sub)
    · rw [hk, Kind.sub_after hends]
      rfl
    · rw [Kind.after_of_ne hk, Kind.after_of_ne hk]

/-! ## Once more, and one behind the other -/

theorem resolveMinusAfter_resolveMinusAfter (previous : Option Kind) (ts : List Token) :
    resolveMinusAfter previous (resolveMinusAfter previous ts) =
      resolveMinusAfter previous ts := by
  induction ts generalizing previous with
  | nil => rfl
  | cons t ts ih => simp only [resolveMinusAfter, Kind.after_after, ih]

/-- **Signs that are told apart** stay as they are. -/
theorem resolveMinus_resolveMinus (ts : List Token) :
    resolveMinus (resolveMinus ts) = resolveMinus ts :=
  resolveMinusAfter_resolveMinusAfter none ts

/-- A kind has no effect on what is behind it just if no operand ends with it.
    A minus shows the difference. -/
theorem forall_resolveMinusAfter_eq_iff {previous : Option Kind} :
    (∀ ts, resolveMinusAfter previous ts = resolveMinusAfter none ts) ↔
      ¬ previous.any Kind.endsOperand = true := by
  constructor
  · intro h hends
    have hminus := h [⟨.operator (.binary .sub), "-", 0, 1⟩]
    rw [resolveMinusAfter, Kind.after_of_ends hends] at hminus
    cases hminus
  · intro hends ts
    exact resolveMinusAfter_congr (Bool.eq_false_iff.2 hends) ts

/-- **Two lists are told apart by themselves** just if no operand ends with
    the last token of the first one. -/
theorem resolveMinus_append_iff {ts : List Token} :
    (∀ us, resolveMinus (ts ++ us) = resolveMinus ts ++ resolveMinus us) ↔
      ∀ t ∈ ts.getLast?, ¬ t.kind.endsOperand = true := by
  have hsplit (us : List Token) :
      resolveMinus (ts ++ us) = resolveMinus ts ++ resolveMinus us ↔
        resolveMinusAfter (ts.getLast?.map Token.kind) us = resolveMinusAfter none us := by
    rw [resolveMinus, resolveMinusAfter_append, kindBefore_length, resolveMinus, resolveMinus,
      List.append_cancel_left_eq]
  simp only [hsplit, forall_resolveMinusAfter_eq_iff, Option.any_map, Option.any_eq_true,
    not_exists, not_and]
  rfl

/-! ## The whole of it -/

/-- **Which minus signs are unary.**  Tokens are told apart without a change to
    anything but binary minus signs.  Of these just those stay that have a
    number, a variable or a closing parenthesis directly before them, as the
    tokens were given; the others become unary.  It is all the same whether
    that is done at once or one by one, and once or twice, and a list that does
    not end with such a token has no effect on what is behind it. -/
theorem resolveMinus_signs (ts : List Token) :
    (resolveMinus ts).length = ts.length ∧
    (∀ i t u, ts[i]? = some t → (resolveMinus ts)[i]? = some u →
      (u.text = t.text ∧ u.start = t.start ∧ u.stop = t.stop) ∧
      (t.kind ≠ .operator (.binary .sub) → u.kind = t.kind) ∧
      (t.kind = .operator (.binary .sub) →
        (OperandBefore ts i → u.kind = .operator (.binary .sub)) ∧
        (¬ OperandBefore ts i → u.kind = .operator .negate))) ∧
    resolveMinus ts = resolveAtOnce none ts ∧
    resolveMinus (resolveMinus ts) = resolveMinus ts ∧
    ((∀ us, resolveMinus (ts ++ us) = resolveMinus ts ++ resolveMinus us) ↔
      ∀ t ∈ ts.getLast?, ¬ (t.kind = .number ∨ t.kind = .var ∨ t.kind = .closeParen)) := by
  refine ⟨length_resolveMinus ts, ?_, resolveMinusAfter_eq_atOnce none ts,
    resolveMinus_resolveMinus ts, ?_⟩
  · intro i t u ht hu
    rw [getElem?_resolveMinus, ht] at hu
    cases hu
    refine ⟨⟨rfl, rfl, rfl⟩, fun hkind => Kind.after_of_ne hkind _, fun hkind => ?_⟩
    dsimp only
    rw [hkind, operandBefore_iff]
    exact ⟨fun hends => Kind.after_of_ends hends _, Kind.sub_after⟩
  · rw [resolveMinus_append_iff]
    simp only [Kind.endsOperand_iff]

/-- Only the minus behind `x` is binary, also where one is unary from the
    outset; and what is behind such a run is told apart by itself. -/
theorem resolveMinus_signs_run :
    let sign : Token := ⟨.operator (.binary .sub), "-", 0, 1⟩
    let ts := [sign, sign, ⟨.var, "x", 2, 3⟩, sign, ⟨.operator .negate, "-", 4, 5⟩, sign]
    (resolveMinus ts).map Token.kind =
      [.operator .negate, .operator .negate, .var, .operator (.binary .sub), .operator .negate,
        .operator .negate] ∧
    ∀ us, resolveMinus (ts ++ us) = resolveMinus ts ++ resolveMinus us := by
  intro sign ts
  obtain ⟨-, -, -, -, hbehind⟩ := resolveMinus_signs ts
  refine ⟨by decide, hbehind.2 fun t ht => ?_⟩
  cases ht
  decide

end Reckon
