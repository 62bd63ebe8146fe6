/-
  Reckon — how the operators that wait are applied.

  * `run` takes symbols that have been read already; `takeAll_eq_ok_iff`
    reduces the taking of any items to it;
  * `Settles p b c`: the state `c` comes from `b` by applying operators of at
    least the priority `p`.  Settling, closing and finishing do not tell such
    states apart (`settle_eq`, `closeGroup_eq`, `finish_eq`);
  * `shift_settled` and `shift_chained` are the two ways to take an operator.
-/
import Reckon.Expr.Build
import Mathlib

namespace Reckon

theorem bind_eq_ok {ε α β : Type} {x : Except ε α} {f : α → Except ε β} {b : β} :
    (x >>= f) = .ok b ↔ ∃ a, x = .ok a ∧ f a = .ok b := by
  cases x with
  | error e => simp [bind, Except.bind]
  | ok a => simp [bind, Except.bind]

theorem bind_eq_error {ε α β : Type} {x : Except ε α} {f : α → Except ε β} {e : ε} :
    (x >>= f) = .error e ↔ x = .error e ∨ ∃ a, x = .ok a ∧ f a = .error e := by
  cases x with
  | error e => simp [bind, Except.bind]
  | ok a => simp [bind, Except.bind]

theorem ok_bind {ε α β : Type} (a : α) (f : α → Except ε β) : (Except.ok a >>= f) = f a := rfl

theorem mapError_bind {ε ε' α β : Type} (x : Except ε α) (f : α → Except ε β) (g : ε → ε') :
    (x >>= f).mapError g = x.mapError g >>= fun a => (f a).mapError g := by
  cases x <;> rfl

/-- A fold fails where its first step fails. -/
theorem foldlM_eq_error_iff {ε α β : Type} {f : β → α → Except ε β} {xs : List α} {b : β} {e : ε} :
    xs.foldlM f b = .error e ↔
      ∃ before x after c, xs = before ++ x :: after ∧ before.foldlM f b = .ok c ∧
        f c x = .error e := by
  constructor
  · intro h
    induction xs generalizing b with
    | nil => cases h
    | cons x xs ih =>
      rw [List.foldlM_cons] at h
      obtain h | ⟨c, hc, h⟩ := bind_eq_error.1 h
      · exact ⟨[], x, xs, b, rfl, rfl, h⟩
      · obtain ⟨before, y, after, d, rfl, hd, h⟩ := ih h
        refine ⟨x :: before, y, after, d, rfl, ?_, h⟩
        rw [List.foldlM_cons]
        exact bind_eq_ok.2 ⟨c, hc, hd⟩
  · rintro ⟨before, x, after, c, rfl, hc, hx⟩
    rw [List.foldlM_append, hc, ok_bind, List.foldlM_cons]
    exact bind_eq_error.2 (.inl hx)

/-- What is found in a list of pairs is in it. -/
theorem mem_of_lookup_eq_some {α β : Type} [BEq α] [LawfulBEq α] {ps : List (α × β)} {a : α} {b : β}
    (h : ps.lookup a = some b) : (a, b) ∈ ps := by
  obtain ⟨before, behind, heq, -⟩ := List.lookup_eq_some_iff.1 h
  rw [heq]
  exact List.mem_append_right _ (List.mem_cons_self ..)

theorem lookup_eq_none_iff_not_mem {α β : Type} [BEq α] [LawfulBEq α] {ps : List (α × β)} {a : α} :
    ps.lookup a = none ↔ a ∉ ps.map Prod.fst := by
  rw [List.lookup_eq_none_iff]
  simp only [List.mem_map, bne_iff_ne, ne_eq, not_exists, not_and]
  exact ⟨fun h p hp heq => h p hp heq.symm, fun h p hp heq => h p hp heq.symm⟩

namespace Build

variable {σ α : Type}

/-! ## Runs -/

/-- The state behind a list of symbols. -/
def run (b : Build α) (symbols : List (Symbol α)) : Except Error (Build α) :=
  symbols.foldlM take b

@[simp] theorem run_cons (b : Build α) (s : Symbol α) (ss : List (Symbol α)) :
    run b (s :: ss) = b.take s >>= fun c => run c ss := rfl

theorem run_append (b : Build α) (ss ts : List (Symbol α)) :
    run b (ss ++ ts) = run b ss >>= fun c => run c ts := by
  simp only [run, List.foldlM_append]

/-- Items are taken if each of them can be read, and the symbols that they are
    read as can be taken. -/
theorem takeAll_eq_ok_iff {symbol : σ → Except Error (Symbol α)} {items : List σ}
    {b c : Build α} :
    takeAll symbol b items = .ok c ↔
      ∃ ss, List.Forall₂ (fun i s => symbol i = .ok s) items ss ∧ run b ss = .ok c := by
  induction items generalizing b with
  | nil =>
    refine ⟨fun h => ⟨[], .nil, h⟩, ?_⟩
    rintro ⟨ss, hs, h⟩
    cases hs
    exact h
  | cons i items ih =>
    simp only [takeAll, List.foldlM_cons, bind_assoc]
    change (symbol i >>= fun s => b.take s >>= fun d => takeAll symbol d items) = .ok c ↔ _
    simp only [bind_eq_ok, ih]
    constructor
    · rintro ⟨s, hs, d, hd, ss, hss, h⟩
      exact ⟨s :: ss, .cons hs hss, by rw [run_cons, hd]; exact h⟩
    · rintro ⟨_, hss, h⟩
      cases hss with
      | cons hs hss =>
        obtain ⟨d, hd, h⟩ := bind_eq_ok.1 h
        exact ⟨_, hs, d, hd, _, hss, h⟩

/-! ## Applying one operator -/

theorem floor_operator (o : Operator) (pending : List Pending) :
    floor (.operator o :: pending) = floor pending := rfl

theorem takeOperand_cons {o : Operator} {pending : List Pending} {es : List (Expr α)}
    (h : floor pending ≤ es.length) (e : Expr α) :
    takeOperand o pending (e :: es) = .ok (e, es) := by
  rw [takeOperand, if_neg (by simp only [List.length_cons]; omega)]

theorem reduce_negate {pending : List Pending} {es : List (Expr α)}
    (h : floor pending ≤ es.length) (e : Expr α) :
    reduce .negate pending (e :: es) = .ok (.negate e :: es) := by
  rw [reduce, takeOperand_cons h]; rfl

theorem reduce_binary {pending : List Pending} {es : List (Expr α)}
    (h : floor pending ≤ es.length) (op : BinaryOp) (l r : Expr α) :
    reduce (.binary op) pending (r :: l :: es) = .ok (.binary op l r :: es) := by
  rw [reduce, takeOperand_cons (by simp only [List.length_cons]; omega)]
  change (takeOperand _ pending (l :: es) >>= _) = _
  rw [takeOperand_cons h]; rfl

/-- What has been taken was the latest operand, and not one from before the
    innermost open parenthesis. -/
theorem takeOperand_eq_ok {o : Operator} {pending : List Pending} {es rest : List (Expr α)}
    {e : Expr α} (h : takeOperand o pending es = .ok (e, rest)) :
    es = e :: rest ∧ floor pending ≤ rest.length := by
  unfold takeOperand at h
  split at h
  · cases h
  · split at h <;> cases h
    rename_i hfloor
    simp only [List.length_cons] at hfloor
    exact ⟨rfl, by omega⟩

/-- What it takes to apply an operator, and what comes of it. -/
theorem reduce_eq_ok {o : Operator} {pending : List Pending} {es es' : List (Expr α)}
    (hreduce : reduce o pending es = .ok es') :
    (∃ e rest, o = .negate ∧ es = e :: rest ∧ es' = .negate e :: rest ∧
        floor pending ≤ rest.length) ∨
      ∃ op l r rest, o = .binary op ∧ es = r :: l :: rest ∧ es' = .binary op l r :: rest ∧
        floor pending ≤ rest.length := by
  obtain ⟨⟨r, es₁⟩, h₁, hrest⟩ := bind_eq_ok.1 hreduce
  obtain ⟨rfl, hfloor⟩ := takeOperand_eq_ok h₁
  cases o with
  | negate =>
    cases hrest
    exact .inl ⟨r, es₁, rfl, rfl, rfl, hfloor⟩
  | binary op =>
    obtain ⟨⟨l, es₂⟩, h₂, hbinary⟩ := bind_eq_ok.1 hrest
    obtain ⟨rfl, hfloor₂⟩ := takeOperand_eq_ok h₂
    cases hbinary
    exact .inr ⟨op, l, r, es₂, rfl, rfl, rfl, hfloor₂⟩

/-! ## Applying several operators -/

/-- Some operators of at least the priority `p` have been applied. -/
inductive Settles (p : Nat) : Build α → Build α → Prop
  | refl (b : Build α) : Settles p b b
  | reduce {o : Operator} {pending : List Pending} {es es' : List (Expr α)} {b : Build α} :
      p ≤ o.priority → reduce o pending es = .ok es' → Settles p ⟨es', pending⟩ b →
      Settles p ⟨es, .operator o :: pending⟩ b

namespace Settles

variable {p q : Nat} {a b c : Build α}

theorem trans (h : Settles p a b) (h' : Settles p b c) : Settles p a c := by
  induction h with
  | refl => exact h'
  | reduce ho hr _ ih => exact .reduce ho hr (ih h')

theorem mono (hq : q ≤ p) (h : Settles p a b) : Settles q a b := by
  induction h with
  | refl => exact .refl _
  | reduce ho hr _ ih => exact .reduce (hq.trans ho) hr ih

theorem binary {pending : List Pending} {es : List (Expr α)} (h : floor pending ≤ es.length)
    {op : BinaryOp} (hp : p ≤ (Operator.binary op).priority) (l r : Expr α) :
    Settles p ⟨r :: l :: es, .operator (.binary op) :: pending⟩ ⟨.binary op l r :: es, pending⟩ :=
  .reduce hp (reduce_binary h op l r) (.refl _)

/-- Operators are applied from the top. -/
theorem pending_isSuffix (h : Settles p a b) : b.pending <:+ a.pending := by
  induction h with
  | refl => exact List.suffix_refl _
  | reduce _ _ _ ih => exact ih.trans (List.suffix_cons ..)

theorem settle_eq (hq : q ≤ p) (h : Settles p a b) :
    settle q a.pending a.operands = settle q b.pending b.operands := by
  induction h with
  | refl => rfl
  | reduce ho hr _ ih =>
    rw [← ih, settle, if_neg (by omega), hr, ok_bind]

theorem closeGroup_eq (h : Settles p a b) :
    closeGroup a.pending a.operands = closeGroup b.pending b.operands := by
  induction h with
  | refl => rfl
  | reduce ho hr _ ih => rw [← ih, closeGroup, hr, ok_bind]

theorem finish_eq (h : Settles p a b) :
    finish a.pending a.operands = finish b.pending b.operands := by
  induction h with
  | refl => rfl
  | reduce ho hr _ ih => rw [← ih, finish, hr, ok_bind]

end Settles

theorem settles_of_settle {p : Nat} {pending : List Pending} {es : List (Expr α)} {c : Build α}
    (h : settle p pending es = .ok c) : Settles p ⟨es, pending⟩ c := by
  induction pending generalizing es with
  | nil => cases h; exact .refl _
  | cons q pending ih =>
    cases q with
    | group => cases h; exact .refl _
    | operator o =>
      rw [settle] at h
      split at h
      · cases h; exact .refl _
      · obtain ⟨rest, hreduce, h⟩ := bind_eq_ok.1 h
        exact .reduce (by omega) hreduce (ih h)

/-- A parenthesis is closed once there is one operand behind the opening one. -/
theorem settles_of_closeGroup {pending : List Pending} {es : List (Expr α)} {c : Build α}
    (h : closeGroup pending es = .ok c) :
    ∃ height, c.operands.length = height + 1 ∧
      Settles 0 ⟨es, pending⟩ ⟨c.operands, .group height :: c.pending⟩ := by
  induction pending generalizing es with
  | nil => cases h
  | cons q pending ih =>
    cases q with
    | group height =>
      rw [closeGroup] at h
      split at h <;> cases h
      rename_i hone
      have hlen : es.length = height + 1 := by omega
      exact ⟨height, hlen, .refl _⟩
    | operator o =>
      obtain ⟨rest, hreduce, h⟩ := bind_eq_ok.1 h
      obtain ⟨height, hlen, hsettles⟩ := ih h
      exact ⟨height, hlen, .reduce (Nat.zero_le _) hreduce hsettles⟩

theorem settles_of_finish {pending : List Pending} {es : List (Expr α)} {e : Expr α}
    (h : finish pending es = .ok e) : Settles 0 ⟨es, pending⟩ ⟨[e], []⟩ := by
  induction pending generalizing es with
  | nil =>
    match es, h with
    | [_], rfl => exact .refl _
  | cons q pending ih =>
    cases q with
    | group => cases h
    | operator o =>
      obtain ⟨rest, hreduce, h⟩ := bind_eq_ok.1 h
      exact .reduce (Nat.zero_le _) hreduce (ih h)

/-! ## Taking an operator -/

/-- No operator of at least the priority `p` is on top. -/
def Below (p : Nat) (pending : List Pending) : Prop :=
  ∀ o, pending.head? = some (.operator o) → o.priority < p

theorem settle_below {p : Nat} {pending : List Pending} (h : Below p pending)
    (es : List (Expr α)) : settle p pending es = .ok ⟨es, pending⟩ := by
  match pending with
  | [] => rfl
  | .group n :: pending => rfl
  | .operator o :: pending => rw [settle, if_pos (h o rfl)]

theorem below_of_settle {p : Nat} {pending : List Pending} {es : List (Expr α)} {c : Build α}
    (h : settle p pending es = .ok c) : Below p c.pending := by
  induction pending generalizing es with
  | nil =>
    cases h
    exact nofun
  | cons q pending ih =>
    cases q with
    | group =>
      cases h
      exact nofun
    | operator o =>
      rw [settle] at h
      split at h
      · rename_i hlt
        cases h
        rintro _ ⟨⟩
        exact hlt
      · obtain ⟨rest, -, h⟩ := bind_eq_ok.1 h
        exact ih h

theorem shift_settled {b : Build α} {es : List (Expr α)} {pending : List Pending} {o : Operator}
    (hs : Settles o.priority b ⟨es, pending⟩) (hb : Below o.priority pending)
    (ho : ¬ (o.chains ∧ b.pending.head? = some (.operator o))) :
    b.shift o = .ok ⟨es, .operator o :: pending⟩ := by
  rw [shift, if_neg ho, hs.settle_eq le_rfl, settle_below hb]; rfl

theorem shift_chained {es : List (Expr α)} {pending : List Pending} {o : Operator}
    (ho : o.chains) :
    shift ⟨es, .operator o :: pending⟩ o = .ok ⟨es, .operator o :: .operator o :: pending⟩ := by
  rw [shift, if_pos ⟨ho, rfl⟩]; rfl

/-- An operator is put upon what is settled for it: all there is if it chains
    with the latest operator, and else what settling leaves. -/
theorem shift_eq_ok {b c : Build α} {o : Operator} (h : b.shift o = .ok c) :
    ∃ d, (o.chains = true ∧ b.pending.head? = some (.operator o) ∧ d = b ∨
        settle o.priority b.pending b.operands = .ok d) ∧
      c = { d with pending := .operator o :: d.pending } := by
  unfold shift at h
  split at h
  · rename_i hchains
    cases h
    exact ⟨b, .inl ⟨hchains.1, hchains.2, rfl⟩, rfl⟩
  · obtain ⟨d, hd, h⟩ := bind_eq_ok.1 h
    cases h
    exact ⟨d, .inr hd, rfl⟩

theorem settles_of_shift {b c : Build α} {o : Operator} (h : b.shift o = .ok c) :
    ∃ d, Settles o.priority b d ∧ c = { d with pending := .operator o :: d.pending } := by
  obtain ⟨d, ⟨-, -, rfl⟩ | hsettle, rfl⟩ := shift_eq_ok h
  · exact ⟨_, .refl _, rfl⟩
  · exact ⟨d, settles_of_settle hsettle, rfl⟩

/-- A unary minus always waits at once: nothing binds tighter. -/
theorem shift_negate (b : Build α) :
    b.shift .negate = .ok ⟨b.operands, .operator .negate :: b.pending⟩ := by
  by_cases h : b.pending.head? = some (.operator .negate)
  · rw [shift, if_pos ⟨rfl, h⟩]; rfl
  · refine shift_settled (.refl _) (fun o ho => ?_) fun h' => h h'.2
    cases o with
    | negate => exact absurd ho h
    | binary op => cases op <;> decide

end Build

end Reckon
