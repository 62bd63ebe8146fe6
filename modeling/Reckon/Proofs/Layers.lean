/-
  Reckon — the operators that wait, layer by layer.

  While tokens are taken, an operator comes to wait directly upon another one
  only if it binds tighter, or if it is the same and chains.  So the operators
  between two open parentheses lie in layers, from bottom to top: an additive
  operator any number of times, `*` any number of times or `/` once, and unary
  minus signs.

  * `Rests`: what may wait directly upon what; `rested_take` and `rested_run`:
    one symbol and a list of them keep to it, and so does what is applied on
    the way (`Settles.rested`);
  * `segments`: the operators between open parentheses;
  * `layered_of_isChain`: operators that rest one upon the other are in layers.
-/
import Reckon.Proofs.Settling
import Reckon.Formula.Reading

namespace Reckon

/-! ## What waits upon what -/

/-- An operator may wait upon another one that binds less, or that is the same
    if it chains. -/
def Operator.RestsOn (upper lower : Operator) : Prop :=
  lower.priority < upper.priority ∨ lower = upper ∧ upper.chains = true

instance (upper lower : Operator) : Decidable (upper.RestsOn lower) :=
  inferInstanceAs (Decidable (_ ∨ _))

namespace Build

variable {α : Type}

/-- Open parentheses may wait anywhere, and upon them anything. -/
def Rests : Pending → Pending → Prop
  | .operator upper, .operator lower => upper.RestsOn lower
  | .group _, _ | _, .group _ => True

/-- Everything that waits may do so where it does. -/
def Rested (b : Build α) : Prop :=
  b.pending.IsChain Rests

theorem Settles.rested {p : Nat} {b c : Build α} (h : Settles p b c) (hb : b.Rested) : c.Rested :=
  hb.suffix h.pending_isSuffix

/-- An operator may wait where the others bind less. -/
theorem rests_of_below {o : Operator} {pending : List Pending} (h : Below o.priority pending) :
    ∀ q ∈ pending.head?, Rests (.operator o) q := by
  intro q hq
  cases q with
  | group => trivial
  | operator p => exact .inl (h p hq)

theorem rested_shift {b c : Build α} {o : Operator} (hb : b.Rested) (h : b.shift o = .ok c) :
    c.Rested := by
  obtain ⟨d, ⟨hchains, hhead, rfl⟩ | hsettle, rfl⟩ := shift_eq_ok h
  · refine List.isChain_cons.2 ⟨fun q hq => ?_, hb⟩
    rw [hhead] at hq
    cases hq
    exact .inr ⟨rfl, hchains⟩
  · exact List.isChain_cons.2
      ⟨rests_of_below (below_of_settle hsettle), (settles_of_settle hsettle).rested hb⟩

/-- **One symbol** leaves everything where it may wait. -/
theorem rested_take {b c : Build α} {s : Symbol α} (hb : b.Rested) (h : b.take s = .ok c) :
    c.Rested := by
  cases s with
  | operand a =>
    cases h
    exact hb
  | operator o => exact rested_shift hb h
  | openParen =>
    cases h
    exact List.isChain_cons.2 ⟨fun _ _ => trivial, hb⟩
  | closeParen =>
    obtain ⟨height, -, hsettles⟩ := settles_of_closeGroup h
    exact (List.isChain_cons.1 (hsettles.rested hb)).2

/-- **A run** does so too. -/
theorem rested_run {b c : Build α} {ss : List (Symbol α)} (hb : b.Rested) (h : run b ss = .ok c) :
    c.Rested := by
  induction ss generalizing b with
  | nil =>
    cases h
    exact hb
  | cons s ss ih =>
    obtain ⟨d, hd, h⟩ := bind_eq_ok.1 h
    exact ih (rested_take hb hd) h

/-! ## Segments -/

/-- The operators that wait, in segments between open parentheses: the latest
    segment first, and each of them from bottom to top. -/
def segments : List Pending → List (List Operator)
  | [] => [[]]
  | .group _ :: pending => [] :: segments pending
  | .operator o :: pending => (segments pending).modifyHead (· ++ [o])

/-- The operators of a segment wait directly one upon the other. -/
theorem segments_infix (pending : List Pending) :
    ∃ top rest, segments pending = top :: rest ∧ top.reverse.map .operator <+: pending ∧
      ∀ ops ∈ rest, ops.reverse.map .operator <:+: pending := by
  induction pending with
  | nil => exact ⟨[], [], rfl, List.nil_prefix, nofun⟩
  | cons q pending ih =>
    obtain ⟨top, rest, heq, htop, hrest⟩ := ih
    have hbehind : pending <:+: q :: pending := (List.suffix_cons q pending).isInfix
    cases q with
    | group =>
      refine ⟨[], top :: rest, by rw [segments, heq], List.nil_prefix, ?_⟩
      exact List.forall_mem_cons.2
        ⟨htop.isInfix.trans hbehind, fun ops hops => (hrest ops hops).trans hbehind⟩
    | operator o =>
      refine ⟨top ++ [o], rest, by rw [segments, heq]; rfl, ?_, fun ops hops =>
        (hrest ops hops).trans hbehind⟩
      rw [List.reverse_concat, List.map_cons]
      exact (List.prefix_cons_inj _).2 htop

theorem infix_of_mem_segments {pending : List Pending} {ops : List Operator}
    (h : ops ∈ segments pending) : ops.reverse.map .operator <:+: pending := by
  obtain ⟨top, rest, heq, htop, hrest⟩ := segments_infix pending
  rw [heq] at h
  obtain rfl | h := List.mem_cons.1 h
  · exact htop.isInfix
  · exact hrest ops h

/-- Each operator of a segment rests on the one below it. -/
theorem Rested.segment {b : Build α} (hb : b.Rested) {ops : List Operator}
    (h : ops ∈ segments b.pending) : ops.IsChain fun lower upper => upper.RestsOn lower := by
  have hinfix : (ops.reverse.map Pending.operator).IsChain Rests :=
    hb.infix (infix_of_mem_segments h)
  exact List.isChain_reverse.1 ((List.isChain_map Pending.operator).1 hinfix)

end Build

/-! ## Layers -/

/-- Operators in layers, from bottom to top: copies of an additive operator, then
    copies of `*` or at most one `/`, then unary minus signs. -/
def Layered (ops : List Operator) : Prop :=
  ∃ additive middle n k, (additive = .add ∨ additive = .sub) ∧
    ((∃ m, middle = List.replicate m (.binary .mul)) ∨ middle = [.binary .div]) ∧
    ops = List.replicate n (.binary additive) ++ middle ++ List.replicate k .negate

/-- Only the same operator waits below an additive one. -/
theorem Operator.RestsOn.additive {a : BinaryOp} (ha : a = .add ∨ a = .sub) {o : Operator}
    (h : (Operator.binary a).RestsOn o) : o = .binary a := by
  revert h
  obtain rfl | rfl := ha
  all_goals
    cases o with
    | negate => decide
    | binary op => cases op <;> decide

/-- One operator more, at the bottom. -/
theorem Layered.cons {o : Operator} {ops : List Operator} (h : Layered ops)
    (ho : ∀ p ∈ ops.head?, p.RestsOn o) : Layered (o :: ops) := by
  obtain ⟨a, middle, n, k, ha, hmiddle, rfl⟩ := h
  cases n with
  | succ n =>
    obtain rfl := Operator.RestsOn.additive ha (ho _ rfl)
    exact ⟨a, middle, n + 2, k, ha, hmiddle, rfl⟩
  | zero =>
    -- below the layer in the middle or, where that is empty, the top one
    cases o with
    | binary op =>
      cases op with
      | add => exact ⟨.add, middle, 1, k, .inl rfl, hmiddle, rfl⟩
      | sub => exact ⟨.sub, middle, 1, k, .inr rfl, hmiddle, rfl⟩
      | mul =>
        obtain ⟨m, rfl⟩ | rfl := hmiddle
        · exact ⟨a, _, 0, k, ha, .inl ⟨m + 1, rfl⟩, rfl⟩
        · exact absurd (ho _ rfl) (by decide)
      | div =>
        obtain ⟨_ | m, rfl⟩ | rfl := hmiddle
        · exact ⟨a, _, 0, k, ha, .inr rfl, rfl⟩
        · exact absurd (ho _ rfl) (by decide)
        · exact absurd (ho _ rfl) (by decide)
    | negate =>
      obtain ⟨_ | m, rfl⟩ | rfl := hmiddle
      · exact ⟨a, [], 0, k + 1, ha, .inl ⟨0, rfl⟩, rfl⟩
      · exact absurd (ho _ rfl) (by decide)
      · exact absurd (ho _ rfl) (by decide)

/-- **Operators that rest one upon the other** are in layers. -/
theorem layered_of_isChain {ops : List Operator}
    (h : ops.IsChain fun lower upper => upper.RestsOn lower) : Layered ops := by
  induction ops with
  | nil => exact ⟨.add, [], 0, 0, .inl rfl, .inl ⟨0, rfl⟩, rfl⟩
  | cons o ops ih =>
    obtain ⟨hhead, h⟩ := List.isChain_cons.1 h
    exact (ih h).cons hhead

theorem Operator.RestsOn.priority_le {upper lower : Operator} (h : upper.RestsOn lower) :
    lower.priority ≤ upper.priority := by
  obtain h | ⟨rfl, -⟩ := h
  · exact h.le
  · exact le_rfl

theorem Operator.RestsOn.eq_of_priority_eq {upper lower : Operator} (h : upper.RestsOn lower)
    (heq : lower.priority = upper.priority) : lower = upper := by
  obtain h | ⟨h, -⟩ := h
  · exact absurd heq h.ne
  · exact h

theorem Layered.count_div {ops : List Operator} (h : Layered ops) :
    ops.count (.binary .div) ≤ 1 := by
  obtain ⟨a, middle, n, k, rfl | rfl, ⟨m, rfl⟩ | rfl, rfl⟩ := h
  all_goals simp [List.count_replicate]

/-- **The shape of what waits.**  While tokens are taken, and at whatever point
    in applying operators, those of each segment are in layers: so priorities
    never decrease upwards, neighbours of the same priority are the same
    operator, and there is no more than one division. -/
theorem Build.segments_layered {ts : List Token} {b c : Build Operand}
    (h : takeAll Token.symbol empty ts = .ok b) (hc : Settles 0 b c) :
    ∀ ops ∈ segments c.pending, Layered ops ∧
      (ops.map Operator.priority).Pairwise (· ≤ ·) ∧
      (ops.IsChain fun lower upper => lower.priority = upper.priority → lower = upper) ∧
      ops.count (.binary .div) ≤ 1 := by
  intro ops hops
  obtain ⟨ss, -, hrun⟩ := takeAll_eq_ok_iff.1 h
  have hempty : (empty : Build Operand).Rested := List.isChain_nil
  have hchain := (hc.rested (rested_run hempty hrun)).segment hops
  have hlayered := layered_of_isChain hchain
  refine ⟨hlayered, ?_, hchain.imp fun _ _ h => h.eq_of_priority_eq, hlayered.count_div⟩
  exact List.isChain_iff_pairwise.1
    ((List.isChain_map _).2 (hchain.imp fun _ _ h => h.priority_le))

/-- What waits behind `x+x+x*(x/x*-`, inside of the parenthesis and before it:
    the division has been applied by then. -/
theorem Build.segments_layered_nested :
    let x : Token := ⟨.var, "x", 0, 1⟩
    let sign (o : Operator) : Token := ⟨.operator o, o.symbol.toString, 0, 1⟩
    let ts := [x, sign (.binary .add), x, sign (.binary .add), x, sign (.binary .mul),
      ⟨.openParen, "(", 0, 1⟩, x, sign (.binary .div), x, sign (.binary .mul), sign .negate]
    ∃ b, takeAll Token.symbol empty ts = .ok b ∧
      segments b.pending = [[.binary .mul, .negate], [.binary .add, .binary .add, .binary .mul]] ∧
      ∀ ops ∈ segments b.pending, Layered ops := by
  intro x sign ts
  have htaken : takeAll Token.symbol empty ts = .ok _ := rfl
  exact ⟨_, htaken, rfl, fun ops hops => (segments_layered htaken (.refl _) ops hops).1⟩

end Reckon
