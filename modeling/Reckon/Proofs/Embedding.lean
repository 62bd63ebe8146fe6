/-
  Reckon — building upon what is there.

  What is built behind an open parenthesis is built as if nothing were before
  it, and where leaves are replaced in all that has been built, building goes
  on as it did.  Both are one and the same map of states, `embed`: the leaves
  of one state are replaced, and it is put upon another one that cannot be
  touched (`Ground`).

  * `reduce_embed`, `settle_embed`, `closeGroup_embed`, `finish_embed` and
    `take_embed`: embedding commutes with every step, errors included;
  * `run_group`: so a list of symbols that is built by itself is one operand
    when it is put in parentheses, wherever these are.
-/
import Reckon.Proofs.Settling

namespace Reckon

theorem Expr.bind_leaf {α : Type} (e : Expr α) : e.bind .leaf = e := by
  induction e with
  | leaf a => rfl
  | negate e ih => rw [bind, ih]
  | binary op l r ihl ihr => rw [bind, ihl, ihr]

theorem map_bind_eq {ε α β γ : Type} (x : Except ε α) (f : α → Except ε β) (g : β → γ) :
    (x >>= f).map g = x >>= fun a => (f a).map g := by
  cases x <;> rfl

namespace Build

variable {α : Type}

/-- A state that nothing above it can touch: there is nothing in it, or an
    open parenthesis comes behind all of its operands. -/
inductive Ground : Build α → Prop
  | empty : Ground empty
  | group (es : List (Expr α)) (pending : List Pending) :
      Ground ⟨es, .group es.length :: pending⟩

/-- What waits, with `n` more operands before it. -/
def raise (n : Nat) : Pending → Pending
  | .group height => .group (height + n)
  | .operator o => .operator o

/-- The state `b` upon the state `c`, each leaf of it replaced. -/
def embed (f : α → Expr α) (c b : Build α) : Build α :=
  ⟨b.operands.map (Expr.bind f) ++ c.operands, b.pending.map (raise c.operands.length) ++ c.pending⟩

theorem Ground.floor_eq {c : Build α} (h : c.Ground) : floor c.pending = c.operands.length := by
  cases h <;> rfl

theorem Ground.below {c : Build α} (h : c.Ground) (p : Nat) : Below p c.pending := by
  cases h <;> exact nofun

variable {f : α → Expr α} {c : Build α}

theorem embed_empty (f : α → Expr α) (c : Build α) : embed f c empty = c := rfl

theorem embed_operator (f : α → Expr α) (c : Build α) (es : List (Expr α)) (o : Operator)
    (pending : List Pending) :
    embed f c ⟨es, .operator o :: pending⟩ =
      ⟨(embed f c ⟨es, pending⟩).operands, .operator o :: (embed f c ⟨es, pending⟩).pending⟩ := rfl

theorem embed_group (f : α → Expr α) (c : Build α) (es : List (Expr α)) (height : Nat)
    (pending : List Pending) :
    embed f c ⟨es, .group height :: pending⟩ =
      ⟨(embed f c ⟨es, pending⟩).operands,
        .group (height + c.operands.length) :: (embed f c ⟨es, pending⟩).pending⟩ := rfl

theorem length_operands_embed (f : α → Expr α) (c b : Build α) :
    (embed f c b).operands.length = b.operands.length + c.operands.length := by
  rw [embed, List.length_append, List.length_map]

theorem floor_embed (hc : c.Ground) (b : Build α) :
    floor (embed f c b).pending = floor b.pending + c.operands.length := by
  obtain ⟨es, pending⟩ := b
  induction pending with
  | nil => exact hc.floor_eq.trans (Nat.zero_add _).symm
  | cons q pending ih =>
    cases q with
    | group height => rfl
    | operator o => exact ih

/-! ## Applying operators -/

theorem takeOperand_embed (hc : c.Ground) (o : Operator) (b : Build α) :
    takeOperand o (embed f c b).pending (embed f c b).operands =
      (takeOperand o b.pending b.operands).map fun x =>
        (x.1.bind f, x.2.map (Expr.bind f) ++ c.operands) := by
  unfold takeOperand
  rw [floor_embed hc, length_operands_embed]
  by_cases h : b.operands.length ≤ floor b.pending
  · rw [if_pos h, if_pos (by omega)]
    rfl
  · rw [if_neg h, if_neg (by omega)]
    obtain ⟨es, pending⟩ := b
    cases es with
    | nil => exact absurd (Nat.zero_le _) h
    | cons e es => rfl

theorem reduce_embed (hc : c.Ground) (o : Operator) (b : Build α) :
    reduce o (embed f c b).pending (embed f c b).operands =
      (reduce o b.pending b.operands).map fun es => es.map (Expr.bind f) ++ c.operands := by
  rw [reduce, reduce, takeOperand_embed hc]
  cases takeOperand o b.pending b.operands with
  | error e => rfl
  | ok x =>
    obtain ⟨right, rest⟩ := x
    cases o with
    | negate => rfl
    | binary op =>
      -- the left operand is taken from what the right one has left
      have hleft := takeOperand_embed (f := f) hc (.binary op) ⟨rest, b.pending⟩
      show (takeOperand _ (embed f c ⟨rest, b.pending⟩).pending
        (embed f c ⟨rest, b.pending⟩).operands >>= _) = Except.map _ (takeOperand _ _ rest >>= _)
      rw [hleft]
      cases takeOperand (.binary op) b.pending rest <;> rfl

theorem settle_embed (hc : c.Ground) (p : Nat) (b : Build α) :
    settle p (embed f c b).pending (embed f c b).operands =
      (settle p b.pending b.operands).map (embed f c) := by
  obtain ⟨es, pending⟩ := b
  induction pending generalizing es with
  | nil => exact settle_below (hc.below p) _
  | cons q pending ih =>
    cases q with
    | group height => rfl
    | operator o =>
      rw [embed_operator, settle, settle]
      split
      · rfl
      · rw [reduce_embed hc o ⟨es, pending⟩, map_bind_eq]
        cases reduce o pending es with
        | error e => rfl
        | ok rest => exact ih rest

theorem settles_embed (hc : c.Ground) {p : Nat} {a b : Build α} (h : Settles p a b) :
    Settles p (embed f c a) (embed f c b) := by
  induction h with
  | refl => exact .refl _
  | @reduce o pending es es' b ho hreduce _ ih =>
    refine .reduce ho ?_ ih
    have := reduce_embed (f := f) hc o ⟨es, pending⟩
    rw [hreduce] at this
    exact this

/-! ## Taking symbols -/

theorem shift_embed (hc : c.Ground) (b : Build α) (o : Operator) :
    (embed f c b).shift o = (b.shift o).map (embed f c) := by
  have hhead : (embed f c b).pending.head? = some (.operator o) ↔
      b.pending.head? = some (.operator o) := by
    obtain ⟨es, pending⟩ := b
    cases pending with
    | nil => exact iff_of_false (fun h => absurd (hc.below 0 o h) (Nat.not_lt_zero _)) nofun
    | cons q pending => cases q <;> simp [embed, raise]
  by_cases hchains : o.chains ∧ b.pending.head? = some (.operator o)
  · rw [shift, if_pos ⟨hchains.1, hhead.2 hchains.2⟩, shift, if_pos hchains]
    rfl
  · rw [shift, if_neg fun h => hchains ⟨h.1, hhead.1 h.2⟩, settle_embed hc, shift, if_neg hchains]
    cases settle o.priority b.pending b.operands <;> rfl

theorem closeGroup_embed (hc : c.Ground) (b : Build α)
    (hopen : c = empty ∨ closeGroup b.pending b.operands ≠ .error (.internal .nothingOpen)) :
    closeGroup (embed f c b).pending (embed f c b).operands =
      (closeGroup b.pending b.operands).map (embed f c) := by
  obtain ⟨es, pending⟩ := b
  induction pending generalizing es with
  | nil =>
    rcases hopen with rfl | hopen
    · rfl
    · exact absurd rfl hopen
  | cons q pending ih =>
    cases q with
    | group height =>
      rw [embed_group, closeGroup, closeGroup, length_operands_embed, Nat.add_sub_add_right]
      cases es.length - height with
      | zero => rfl
      | succ n => cases n <;> rfl
    | operator o =>
      rw [closeGroup] at hopen
      rw [embed_operator, closeGroup, closeGroup, reduce_embed hc o ⟨es, pending⟩, map_bind_eq]
      cases hrest : reduce o pending es with
      | error e => rfl
      | ok rest =>
        rw [hrest] at hopen
        exact ih rest hopen

/-- **Embedding commutes with taking a symbol**, unless its leaf is replaced or
    a parenthesis of the ground is closed. -/
theorem take_embed (hc : c.Ground) {s : Symbol α} (hs : ∀ a, s = .operand a → f a = .leaf a)
    (b : Build α) (hopen : c = empty ∨ b.take s ≠ .error (.internal .nothingOpen)) :
    (embed f c b).take s = (b.take s).map (embed f c) := by
  cases s with
  | operand a =>
    show Except.ok (Build.mk (.leaf a :: (embed f c b).operands) (embed f c b).pending) =
      .ok ⟨f a :: (embed f c b).operands, (embed f c b).pending⟩
    rw [hs a rfl]
  | operator o => exact shift_embed hc b o
  | openParen =>
    show Except.ok (Build.mk (embed f c b).operands (.group (embed f c b).operands.length ::
      (embed f c b).pending)) = _
    rw [length_operands_embed]
    rfl
  | closeParen => exact closeGroup_embed hc b hopen

theorem finish_embed (f : α → Expr α) (b : Build α) :
    finish (embed f empty b).pending (embed f empty b).operands =
      (finish b.pending b.operands).map (Expr.bind f) := by
  obtain ⟨es, pending⟩ := b
  induction pending generalizing es with
  | nil =>
    match es with
    | [] | [e] => rfl
    | e :: e' :: es => simp [embed, empty, finish, Except.map]
  | cons q pending ih =>
    cases q with
    | group height => rfl
    | operator o =>
      rw [embed_operator, finish, finish, reduce_embed .empty o ⟨es, pending⟩, map_bind_eq]
      cases reduce o pending es with
      | error e => rfl
      | ok rest => exact ih rest

/-! ## Groups -/

theorem run_embed (hc : c.Ground) {ss : List (Symbol α)} {a b : Build α} (h : run a ss = .ok b) :
    run (embed .leaf c a) ss = .ok (embed .leaf c b) := by
  induction ss generalizing a with
  | nil => cases h; rfl
  | cons s ss ih =>
    obtain ⟨d, hd, h⟩ := bind_eq_ok.1 h
    have htake := take_embed (f := .leaf) hc (fun _ _ => rfl) a (.inr (by rw [hd]; exact nofun))
    rw [run_cons, htake, hd]
    exact ih h

/-- **What is built by itself is one operand in parentheses**, whatever is there
    before them. -/
theorem run_group {ss : List (Symbol α)} {b : Build α} {e : Expr α} (hrun : run empty ss = .ok b)
    (hfinish : finish b.pending b.operands = .ok e) (d : Build α) :
    run d (.openParen :: (ss ++ [.closeParen])) = .ok ⟨e :: d.operands, d.pending⟩ := by
  have hc : Ground ⟨d.operands, .group d.operands.length :: d.pending⟩ := .group ..
  have hinside := run_embed hc hrun
  rw [embed_empty] at hinside
  have hclose := (settles_embed (f := .leaf) hc (settles_of_finish hfinish)).closeGroup_eq
  rw [run_cons, take, ok_bind, run_append, hinside, ok_bind, run_cons, take, hclose]
  simp [embed, closeGroup, Expr.bind_leaf, run]

end Build

end Reckon
