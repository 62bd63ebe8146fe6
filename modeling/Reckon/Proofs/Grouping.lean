/-
  Reckon — building groups what is written.

  `Builds p ss e bare`: from any state whose top can wait for operators of the
  priority `p`, the symbols `ss` lead to a state that settles down to the
  expression `e` on top of what was there.  Runs keep this from link to link
  (`run_links`), chains from run to run (`run_runs`), so that it holds of
  terms and sums if it holds of factors (`builds_chain`), and of all that is
  written (`builds_level`).

  `build_symbols`: the symbols of a written formula are built into the
  expression that it stands for.
-/
import Reckon.Proofs.Settling
import Reckon.Proofs.Written

namespace Reckon

open Build

variable {α β : Type}

namespace Build

/-- The symbols `ss` build the expression `e` on top of any state that no
    operator of at least the priority `p` is on top of.  The operators that
    still wait have at least this priority, and there are none if `e` is a
    bare atom. -/
def Builds (p : Nat) (ss : List (Symbol α)) (e : Expr α) (bare : Bool) : Prop :=
  ∀ es pending, floor pending ≤ es.length → Below p pending →
    ∃ b, run ⟨es, pending⟩ ss = .ok b ∧ Settles p b ⟨e :: es, pending⟩ ∧
      (bare = true → b = ⟨e :: es, pending⟩) ∧
      (bare = false → ∃ o, b.pending.head? = some (.operator o) ∧ p ≤ o.priority)

theorem below_operator {p : Nat} {o : Operator} (h : o.priority < p) (pending : List Pending) :
    Below p (.operator o :: pending) := by
  intro o' ho
  cases ho
  exact h

end Build

namespace Form

variable (F : Form α β)

/-- Items are built on top of operators of the priority `q`. -/
def Sound (q : Nat) (x : β) : Prop :=
  Builds (q + 1) (F.symbols x) (F.expr x) (F.bare x)

/-- A link of a chain whose operators have the priority `q`. -/
def SoundLink (q : Nat) (l : BinaryOp × β) : Prop :=
  (Operator.binary l.1).priority = q ∧ F.Sound q l.2

/-- A chain whose operators have the priority `q`. -/
def SoundChain (q : Nat) (c : Chain β) : Prop :=
  F.Sound q c.first ∧ ∀ l ∈ c.links, F.SoundLink q l

/-- What waits behind the link `l`: its own operator if its item is a bare
    atom, one that binds tighter if not. -/
def Behind (q : Nat) (l : BinaryOp × β) (pending : List Pending) : Prop :=
  ∃ o, pending.head? = some (.operator o) ∧ q ≤ o.priority ∧
    (o.priority = q → o = .binary l.1 ∧ F.bare l.2 = true)

variable {F}

theorem linkSymbols_cons (l : BinaryOp × β) (links : List (BinaryOp × β)) :
    F.linkSymbols (l :: links) =
      .operator (.binary l.1) :: (F.symbols l.2 ++ F.linkSymbols links) := rfl

theorem linkSymbols_append (links links' : List (BinaryOp × β)) :
    F.linkSymbols (links ++ links') = F.linkSymbols links ++ F.linkSymbols links' :=
  List.flatMap_append

theorem Behind.not_chains {q : Nat} {l m : BinaryOp × β} {pending : List Pending}
    (h : F.Behind q l pending) (hm : (Operator.binary m.1).priority = q) (hr : F.sameRun l m = false) :
    ¬ ((Operator.binary m.1).chains ∧ pending.head? = some (.operator (.binary m.1))) := by
  rintro ⟨hc, hh⟩
  obtain ⟨o, ho, -, hq⟩ := h
  rw [hh] at ho
  cases ho
  obtain ⟨hl, hb⟩ := hq hm
  have heq : m.1 = l.1 := Operator.binary.inj hl
  have hdiv : m.1 ≠ .div := fun h => by rw [h] at hc; cases hc
  simp [sameRun, hb, ← heq, hdiv] at hr

/-- **A run is grouped from the right.**  Its first operator waits already. -/
theorem run_links {q : Nat} {op : BinaryOp} {x : β} {links : List (BinaryOp × β)}
    (hs : ∀ l ∈ (op, x) :: links, F.SoundLink q l)
    (hr : ((op, x) :: links).IsChain fun l m => F.sameRun l m = true) :
    ∀ (e : Expr α) es pending, floor pending ≤ es.length →
      ∃ b, run ⟨e :: es, .operator (.binary op) :: pending⟩
          (F.symbols x ++ F.linkSymbols links) = .ok b ∧
        Settles q b ⟨F.groupRight e ((op, x) :: links) :: es, pending⟩ ∧
        F.Behind q (((op, x) :: links).getLast (List.cons_ne_nil _ _)) b.pending := by
  induction links generalizing op x with
  | nil =>
    intro e es pending hf
    obtain ⟨hq, hx⟩ := hs _ (List.mem_singleton_self _)
    have hlt : (Operator.binary op).priority < q + 1 := Nat.lt_succ_of_le hq.le
    obtain ⟨b, hb, hset, hbare, hnot⟩ := hx (e :: es) (.operator (.binary op) :: pending)
      (by rw [floor_operator, List.length_cons]; omega) (below_operator hlt _)
    refine ⟨b, by simpa [linkSymbols] using hb, ?_, ?_⟩
    · exact (hset.mono (Nat.le_succ q)).trans (.binary hf hq.ge _ _)
    · rcases hB : F.bare x with _ | _
      · obtain ⟨o, ho, hlo⟩ := hnot hB
        exact ⟨o, ho, by omega, fun h => by omega⟩
      · rw [hbare hB]
        exact ⟨_, rfl, hq.ge, fun _ => ⟨rfl, hB⟩⟩
  | cons m links ih =>
    intro e es pending hf
    obtain ⟨hq, hx⟩ := hs _ (List.mem_cons_self ..)
    obtain ⟨hjoin, hr⟩ := List.isChain_cons_cons.1 hr
    obtain ⟨op', y⟩ := m
    simp only [sameRun, Bool.and_eq_true, decide_eq_true_eq, bne_iff_ne, ne_eq] at hjoin
    obtain ⟨⟨rfl, hdiv⟩, hB⟩ := hjoin
    have hlt : (Operator.binary op).priority < q + 1 := Nat.lt_succ_of_le hq.le
    obtain ⟨b, hb, -, hbare, -⟩ := hx (e :: es) (.operator (.binary op) :: pending)
      (by rw [floor_operator, List.length_cons]; omega) (below_operator hlt _)
    rw [hbare hB] at hb
    have hch : (Operator.binary op).chains = true := by simp [Operator.chains, hdiv]
    -- the operator of the next link waits upon that of this one
    obtain ⟨c, hc, hset, hend⟩ := ih (fun l hl => hs l (List.mem_cons_of_mem _ hl)) hr
      (F.expr x) (e :: es) (.operator (.binary op) :: pending)
      (by rw [floor_operator, List.length_cons]; omega)
    refine ⟨c, ?_, hset.trans (.binary hf hq.ge _ _), by simpa using hend⟩
    rw [run_append, hb, ok_bind, linkSymbols_cons, run_cons, take, shift_chained hch, ok_bind]
    exact hc

/-- **Runs are grouped from the left.**  The first operator of a run settles
    all that is before it. -/
theorem run_runs {q : Nat} {es : List (Expr α)} {pending : List Pending}
    (hf : floor pending ≤ es.length) (hp : Below q pending) :
    ∀ {runs : List (List (BinaryOp × β))},
      (∀ r ∈ runs, r ≠ [] ∧ (∀ l ∈ r, F.SoundLink q l) ∧
        r.IsChain fun l m => F.sameRun l m = true) →
      (runs.IsChain fun r s => ∃ hr hs, F.sameRun (r.getLast hr) (s.head hs) = false) →
      ∀ {b : Build α} {e : Expr α}, Settles q b ⟨e :: es, pending⟩ →
      (∀ r ∈ runs.head?, ∀ l ∈ r.head?, ¬ ((Operator.binary l.1).chains ∧
        b.pending.head? = some (.operator (.binary l.1)))) →
      ∃ c, run b (F.linkSymbols runs.flatten) = .ok c ∧
        Settles q c ⟨runs.foldl F.groupRight e :: es, pending⟩ ∧
        (runs ≠ [] → ∃ o, c.pending.head? = some (.operator o) ∧ q ≤ o.priority)
  | [], _, _, b, e, hset, _ => ⟨b, rfl, hset, fun h => absurd rfl h⟩
  | [] :: runs, hs, _, _, _, _, _ => absurd rfl (hs [] (List.mem_cons_self ..)).1
  | ((op, x) :: links) :: runs, hs, hr, b, e, hset, hhead => by
    obtain ⟨-, hsound, hchain⟩ := hs _ (List.mem_cons_self ..)
    have hq : (Operator.binary op).priority = q := (hsound _ (List.mem_cons_self ..)).1
    obtain ⟨hnext, hr⟩ := List.isChain_cons.1 hr
    have hshift : b.shift (.binary op) = .ok ⟨e :: es, .operator (.binary op) :: pending⟩ :=
      shift_settled (hq ▸ hset) (hq ▸ hp) (hhead _ rfl _ rfl)
    obtain ⟨c, hc, hset, hend⟩ := run_links hsound hchain e es pending hf
    -- the next run does not go on with this one
    have hhead' : ∀ r ∈ runs.head?, ∀ l ∈ r.head?, ¬ ((Operator.binary l.1).chains ∧
        c.pending.head? = some (.operator (.binary l.1))) := by
      intro r hr l hl
      obtain ⟨_, hne, hno⟩ := hnext r hr
      have hmem : r ∈ runs := List.mem_of_mem_head? hr
      have hl' : r.head hne = l := List.head_of_mem_head? hl
      rw [hl'] at hno
      have hlr : l ∈ r := List.mem_of_mem_head? hl
      exact hend.not_chains ((hs r (List.mem_cons_of_mem _ hmem)).2.1 l hlr).1 hno
    obtain ⟨d, hd, hset', hlast⟩ :=
      run_runs hf hp (fun r h => hs r (List.mem_cons_of_mem _ h)) hr hset hhead'
    refine ⟨d, ?_, hset', fun _ => ?_⟩
    · rw [List.flatten_cons, linkSymbols_append, linkSymbols_cons, List.cons_append, run_cons,
        take, hshift, ok_bind, run_append, hc, ok_bind]
      exact hd
    · by_cases hne : runs = []
      · subst hne
        obtain ⟨o, ho, hqo, -⟩ := hend
        cases hd
        exact ⟨o, ho, hqo⟩
      · exact hlast hne

/-- **Chains are built.**  If the items of a chain are built on top of its
    operators, the chain is built on top of operators that bind less. -/
theorem builds_chain {q : Nat} {c : Chain β} (h : F.SoundChain q c) :
    Builds q (F.chain.symbols c) (F.chain.expr c) (F.chain.bare c) := by
  obtain ⟨hfirst, hlinks⟩ := h
  intro es pending hf hp
  have hp' : Below (q + 1) pending := fun o ho => Nat.lt_succ_of_lt (hp o ho)
  obtain ⟨b, hb, hset, hbare, hnot⟩ := hfirst es pending hf hp'
  -- nothing that waits behind the first item can be continued
  have hhead : ∀ o, o.priority = q → b.pending.head? ≠ some (.operator o) := by
    intro o ho hh
    rcases hB : F.bare c.first with _ | _
    · obtain ⟨o', ho', hlt⟩ := hnot hB
      rw [ho'] at hh
      cases hh
      omega
    · rw [hbare hB] at hh
      exact absurd (hp o hh) (by omega)
  have hmem : ∀ r ∈ c.links.splitBy F.sameRun, ∀ l ∈ r, l ∈ c.links := by
    intro r hr l hl
    rw [← List.flatten_splitBy F.sameRun c.links]
    exact List.mem_flatten.2 ⟨r, hr, hl⟩
  obtain ⟨d, hd, hset', hlast⟩ := run_runs (F := F) hf hp
    (fun r hr => ⟨List.ne_nil_of_mem_splitBy hr, fun l hl => hlinks l (hmem r hr l hl),
      List.isChain_of_mem_splitBy hr⟩)
    (List.isChain_getLast_head_splitBy _ _) (hset.mono (Nat.le_succ q))
    (fun r hr l hl hh => hhead _ (hlinks l (hmem r (List.mem_of_mem_head? hr) l
      (List.mem_of_mem_head? hl))).1 hh.2)
  rw [List.flatten_splitBy] at hd
  refine ⟨d, by rw [chain, run_append, hb]; exact hd, hset', fun h => ?_, fun h => ?_⟩
  · simp only [chain, Bool.and_eq_true, List.isEmpty_iff] at h
    obtain ⟨hnil, hB⟩ := h
    rw [hnil] at hd
    cases hd
    rw [hbare hB]
    simp only [chain, hnil]
    rfl
  · by_cases hnil : c.links = []
    · have hB : F.bare c.first = false := by simpa [chain, hnil] using h
      obtain ⟨o, ho, hlt⟩ := hnot hB
      rw [hnil] at hd
      cases hd
      exact ⟨o, ho, by omega⟩
    · exact hlast fun h => hnil (List.splitBy_eq_nil.1 h)

/-! ## Splitting into terms -/

theorem symbols_split (x : β) (links : List (BinaryOp × β)) :
    F.chain.chain.symbols (Chain.split x links) = F.symbols x ++ F.linkSymbols links := by
  induction links generalizing x with
  | nil => simp [Chain.split, chain, linkSymbols]
  | cons l links ih =>
    obtain ⟨op, y⟩ := l
    have ih := ih y
    simp only [chain, List.append_assoc] at ih
    simp only [Chain.split, linkSymbols_cons]
    rw [← ih]
    split <;> simp [chain, linkSymbols]

/-- The terms of a level are chains of `*` and `/`, the operators between them
    `+` and `-`. -/
theorem sound_split {x : β} {links : List (BinaryOp × β)} (hx : F.Sound 3 x)
    (hl : ∀ l ∈ links, F.Sound 3 l.2) : F.chain.SoundChain 2 (Chain.split x links) := by
  -- as chains of factors, terms can still be extended at their front
  have key : F.SoundChain 3 (Chain.split x links).first ∧
      ∀ l ∈ (Chain.split x links).links,
        (Operator.binary l.1).priority = 2 ∧ F.SoundChain 3 l.2 := by
    induction links generalizing x with
    | nil => exact ⟨⟨hx, by simp [Chain.split]⟩, by simp [Chain.split]⟩
    | cons l links ih =>
      obtain ⟨op, y⟩ := l
      obtain ⟨hfirst, hrest⟩ := ih (hl _ (List.mem_cons_self ..))
        fun l h => hl l (List.mem_cons_of_mem _ h)
      simp only [Chain.split]
      split
      · rename_i hop
        refine ⟨⟨hx, fun l h => ?_⟩, hrest⟩
        rcases List.mem_cons.1 h with rfl | h
        · exact ⟨by rcases hop with rfl | rfl <;> rfl, hfirst.1⟩
        · exact hfirst.2 l h
      · rename_i hop
        refine ⟨⟨hx, by simp⟩, fun l h => ?_⟩
        rcases List.mem_cons.1 h with rfl | h
        · exact ⟨by cases op <;> simp_all <;> rfl, hfirst⟩
        · exact hrest l h
  exact ⟨builds_chain key.1, fun l h => ⟨(key.2 l h).1, builds_chain (key.2 l h).2⟩⟩

end Form

/-! ## Factors -/

/-- The symbols `ss` build the expression `e` and leave nothing waiting. -/
def Stands (ss : List (Symbol α)) (e : Expr α) : Prop :=
  ∀ es pending, floor pending ≤ es.length →
    run ⟨es, pending⟩ ss = .ok ⟨e :: es, pending⟩

theorem run_minuses (n : Nat) (es : List (Expr α)) (pending : List Pending)
    (ss : List (Symbol α)) :
    run ⟨es, pending⟩ (List.replicate n (.operator .negate) ++ ss) =
      run ⟨es, List.replicate n (.operator .negate) ++ pending⟩ ss := by
  induction n generalizing pending with
  | zero => rfl
  | succ n ih =>
    rw [List.replicate_succ, List.cons_append, run_cons, take, shift_negate, ok_bind, ih,
      List.replicate_succ', List.append_assoc]
    rfl

theorem settles_minuses {p : Nat} (hp : p ≤ Operator.negate.priority) (n : Nat) {e : Expr α}
    {es : List (Expr α)} {pending : List Pending} (hf : floor pending ≤ es.length) :
    Settles p ⟨e :: es, List.replicate n (.operator .negate) ++ pending⟩
      ⟨n.repeat Expr.negate e :: es, pending⟩ := by
  induction n generalizing pending with
  | zero => exact .refl _
  | succ n ih =>
    rw [List.replicate_succ', List.append_assoc]
    have hfloor : floor (.operator .negate :: pending) ≤ es.length := hf
    exact (ih hfloor).trans (.reduce hp (reduce_negate hf _) (.refl _))

theorem sound_factor {f : Factor α} (h : Stands f.atom.symbols f.expr) :
    Form.factor.Sound 3 f := by
  intro es pending hf hp
  refine ⟨⟨f.expr :: es, List.replicate f.minuses (.operator .negate) ++ pending⟩, ?_,
    settles_minuses (by decide) _ hf, fun hB => ?_, fun hB => ?_⟩
  · simp only [Form.factor, run_minuses]
    refine h _ _ (Nat.le_trans (Nat.le_of_eq ?_) hf)
    induction f.minuses with
    | zero => rfl
    | succ n ih => rw [← ih]; rfl
  · simp only [Form.factor, beq_iff_eq] at hB
    simp only [Form.factor, hB]
    rfl
  · simp only [Form.factor, beq_eq_false_iff_ne, ne_eq] at hB
    obtain ⟨n, hn⟩ := Nat.exists_eq_succ_of_ne_zero hB
    exact ⟨.negate, by rw [hn]; rfl, by decide⟩

/-! ## Formulas -/

namespace Written

theorem symbols_level (e : Written α) :
    Form.factor.symbols e.level.first ++ Form.factor.linkSymbols e.level.links = e.symbols := by
  induction e with
  | operand a => rfl
  | group e _ => simp [level, Form.factor, Form.linkSymbols, symbols]
  | negate e ih => rw [symbols, ← ih]; rfl
  | binary op l r ihl ihr =>
    rw [level, Form.linkSymbols_append, Form.linkSymbols_cons, ← List.append_assoc, ihl, ihr]
    rfl

/-- The atoms of a level stand for their expressions. -/
def StandingLevel (c : Chain (Factor α)) : Prop :=
  Stands c.first.atom.symbols c.first.expr ∧ ∀ l ∈ c.links, Stands l.2.atom.symbols l.2.expr

/-- A level is built as a sum of terms of factors. -/
theorem builds_level {e : Written α} (h : StandingLevel e.level) :
    Builds 2 e.symbols e.grouped (Form.sum.bare e.level.terms) := by
  have hb := Form.builds_chain (Form.sound_split (sound_factor h.1)
    fun l hl => sound_factor (h.2 l hl))
  rwa [Form.symbols_split, symbols_level] at hb

theorem stands_group {e : Written α} (h : StandingLevel e.level) :
    Stands (group e).symbols e.grouped := by
  intro es pending _
  obtain ⟨b, hb, hset, -⟩ := builds_level h es (.group es.length :: pending) le_rfl
    (by rintro o ⟨⟩)
  have hclose := hset.closeGroup_eq
  simp only [closeGroup, List.length_cons, Nat.add_sub_cancel_left] at hclose
  rw [symbols, List.cons_append, run_cons, take, ok_bind, run_append, hb, ok_bind, run_cons,
    take, hclose]
  rfl

theorem standingLevel (e : Written α) : StandingLevel e.level := by
  induction e with
  | operand a => exact ⟨fun es pending _ => rfl, by simp [level]⟩
  | group e ih => exact ⟨stands_group ih, by simp [level]⟩
  | negate e ih => exact ih
  | binary op l r ihl ihr =>
    refine ⟨ihl.1, fun m hm => ?_⟩
    rcases List.mem_append.1 hm with hm | hm
    · exact ihl.2 m hm
    · rcases List.mem_cons.1 hm with rfl | hm
      · exact ihr.1
      · exact ihr.2 m hm

end Written

/-- **What is written is grouped.**  Building a written formula succeeds, and
    gives the expression that it stands for. -/
theorem build_symbols (e : Written α) :
    (run empty e.symbols >>= fun b => finish b.pending b.operands) = .ok e.grouped := by
  obtain ⟨b, hb, hset, -⟩ := Written.builds_level e.standingLevel [] [] le_rfl (by rintro o ⟨⟩)
  rw [empty, hb, ok_bind, hset.finish_eq, finish]

-- in `a - b - c * d - e` the first run ends with the product
example : (Written.binary .sub (.binary .sub (.operand 'a') (.binary .sub (.operand 'b')
      (.binary .mul (.operand 'c') (.operand 'd')))) (.operand 'e')).grouped =
    .binary .sub (.binary .sub (.leaf 'a') (.binary .sub (.leaf 'b')
      (.binary .mul (.leaf 'c') (.leaf 'd')))) (.leaf 'e') := by rfl

end Reckon
