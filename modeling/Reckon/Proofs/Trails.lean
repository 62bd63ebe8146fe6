/-
  Reckon — the states that building goes through.

  Taking a symbol is more than one step: an operator is taken off its stack,
  then its operands off theirs, and what is made of them is put there.  A
  `Trail` is a computation with the states that it goes through, one behind
  each single push or pop, up to its end or its failure.

  * `Trail.take` and `Trail.takeAll` take symbols as `Build` does, and leave
    trails.  These make no difference to what comes of it (`outcome_takeAll`);
  * `Move`: one push or one pop.  A symbol leads from one state to the next by
    moves, unless it opens a parenthesis (`goes_take`);
  * `trail`: all states from the empty one on, the last of which is the one
    that items lead to (`trail_eq_concat`).
-/
import Reckon.Proofs.Settling

namespace Reckon

open Build

/-- A computation that goes through states on its way to its outcome.  If it
    fails, it has gone through those before the failure. -/
structure Trail (σ α : Type) where
  states : List σ
  outcome : Except Error α

namespace Trail

section
variable {σ α β γ : Type}

/-- A computation that goes through no state. -/
def ofExcept (x : Except Error α) : Trail σ α := ⟨[], x⟩

/-- One state, and nothing else. -/
def visit (s : σ) : Trail σ Unit := ⟨[s], .ok ()⟩

/-- One computation after another, unless the first one fails. -/
def bind : Trail σ α → (α → Trail σ β) → Trail σ β
  | ⟨states, .ok a⟩, f => ⟨states ++ (f a).states, (f a).outcome⟩
  | ⟨states, .error e⟩, _ => ⟨states, .error e⟩

instance : Monad (Trail σ) where
  pure a := ⟨[], .ok a⟩
  bind := bind

theorem bind_ok (states : List σ) (a : α) (f : α → Trail σ β) :
    (⟨states, .ok a⟩ : Trail σ α) >>= f = ⟨states ++ (f a).states, (f a).outcome⟩ := rfl

theorem bind_pure_self (x : Trail σ α) : x >>= pure = x := by
  obtain ⟨states, _ | a⟩ := x
  · rfl
  · exact congrArg (Trail.mk · _) (List.append_nil states)

theorem bind_bind (x : Trail σ α) (f : α → Trail σ β) (g : β → Trail σ γ) :
    x >>= f >>= g = x >>= fun a => f a >>= g := by
  obtain ⟨states, _ | a⟩ := x
  · rfl
  · rw [bind_ok, bind_ok]
    obtain ⟨states', _ | b⟩ := f a
    · rfl
    · rw [bind_ok, bind_ok, List.append_assoc]

instance : LawfulMonad (Trail σ) :=
  LawfulMonad.mk' (Trail σ) bind_pure_self (fun _ _ => rfl) bind_bind

@[simp] theorem outcome_ofExcept (x : Except Error α) : (ofExcept x : Trail σ α).outcome = x := rfl

@[simp] theorem outcome_visit (s : σ) : (visit s).outcome = .ok () := rfl

@[simp] theorem outcome_bind (x : Trail σ α) (f : α → Trail σ β) :
    (x >>= f).outcome = x.outcome >>= fun a => (f a).outcome := by
  obtain ⟨states, _ | a⟩ := x <;> rfl

/-- What goes through no state has not failed if a state is gone through behind
    it. -/
theorem exists_of_prefix {x : Except Error α} {f : α → Trail σ β} {before : List σ} {s : σ}
    (h : before ++ [s] <+: (ofExcept x >>= f).states) :
    ∃ a, x = .ok a ∧ before ++ [s] <+: (f a).states := by
  cases x with
  | error e => exact absurd (List.prefix_nil.1 h) (List.append_ne_nil_of_right_ne_nil _ nofun)
  | ok a => exact ⟨a, rfl, h⟩

end

/-! ## Taking symbols, push by push -/

variable {σ α : Type}

/-- Take off the latest operand. -/
def pop (o : Operator) (pending : List Pending) (operands : List (Expr α)) :
    Trail (Build α) (Expr α × List (Expr α)) := do
  let (e, rest) ← ofExcept (takeOperand o pending operands)
  visit ⟨rest, pending⟩
  return (e, rest)

/-- Put an expression upon the operands. -/
def push (e : Expr α) (pending : List Pending) (operands : List (Expr α)) :
    Trail (Build α) (List (Expr α)) := do
  visit ⟨e :: operands, pending⟩
  return e :: operands

/-- Apply the operator `o`, which has waited upon `pending`. -/
def reduce (o : Operator) (pending : List Pending) (operands : List (Expr α)) :
    Trail (Build α) (List (Expr α)) := do
  visit ⟨operands, pending⟩
  let (right, rest) ← pop o pending operands
  match o with
  | .negate => push (.negate right) pending rest
  | .binary op =>
    let (left, rest) ← pop o pending rest
    push (.binary op left right) pending rest

/-- Apply the pending operators of at least the given priority. -/
def settle (priority : Nat) : List Pending → List (Expr α) → Trail (Build α) (Build α)
  | .operator o :: pending, operands =>
    if o.priority < priority then pure ⟨operands, .operator o :: pending⟩
    else do settle priority pending (← reduce o pending operands)
  | pending, operands => pure ⟨operands, pending⟩

/-- Go to a state and stay there. -/
def arrive (b : Build α) : Trail (Build α) (Build α) := do
  visit b
  return b

/-- Take an operator. -/
def shift (b : Build α) (o : Operator) : Trail (Build α) (Build α) := do
  let settled ←
    if o.chains ∧ b.pending.head? = some (.operator o) then pure b
    else settle o.priority b.pending b.operands
  arrive { settled with pending := .operator o :: settled.pending }

/-- Take a closing parenthesis.  The opening one is taken off before the
    operands behind it are counted. -/
def closeGroup : List Pending → List (Expr α) → Trail (Build α) (Build α)
  | .operator o :: pending, operands => do closeGroup pending (← reduce o pending operands)
  | .group height :: pending, operands => do
    visit ⟨operands, pending⟩
    ofExcept (Build.closeGroup (.group height :: pending) operands)
  | [], operands => ofExcept (Build.closeGroup [] operands)

/-- Take one symbol. -/
def take (b : Build α) : Symbol α → Trail (Build α) (Build α)
  | .operand a => arrive { b with operands := .leaf a :: b.operands }
  | .operator o => shift b o
  | .openParen => arrive { b with pending := .group b.operands.length :: b.pending }
  | .closeParen => closeGroup b.pending b.operands

/-- Take a list of items, each of which is read as a symbol when its turn
    comes. -/
def takeAll (symbol : σ → Except Error (Symbol α)) (b : Build α) (items : List σ) :
    Trail (Build α) (Build α) :=
  items.foldlM (fun b i => do take b (← ofExcept (symbol i))) b

/-! ## What comes of it -/

@[simp] theorem outcome_pop (o : Operator) (pending : List Pending) (es : List (Expr α)) :
    (pop o pending es).outcome = takeOperand o pending es := by
  rw [pop, outcome_bind]
  exact bind_pure _

@[simp] theorem outcome_reduce (o : Operator) (pending : List Pending) (es : List (Expr α)) :
    (reduce o pending es).outcome = Build.reduce o pending es := by
  rw [reduce, Build.reduce, outcome_bind, outcome_visit, ok_bind, outcome_bind, outcome_pop]
  congr 1
  funext taken
  obtain ⟨right, rest⟩ := taken
  cases o with
  | negate => rfl
  | binary op => exact (outcome_bind ..).trans (by rw [outcome_pop]; rfl)

@[simp] theorem outcome_settle (p : Nat) (pending : List Pending) (es : List (Expr α)) :
    (settle p pending es).outcome = Build.settle p pending es := by
  induction pending generalizing es with
  | nil => rfl
  | cons q pending ih =>
    cases q with
    | group => rfl
    | operator o =>
      rw [settle, Build.settle]
      split
      · rfl
      · rw [outcome_bind, outcome_reduce]
        congr 1
        funext es'
        exact ih es'

@[simp] theorem outcome_shift (b : Build α) (o : Operator) : (shift b o).outcome = b.shift o := by
  unfold shift Build.shift
  split
  · rfl
  · rw [outcome_bind, outcome_settle]
    rfl

@[simp] theorem outcome_closeGroup (pending : List Pending) (es : List (Expr α)) :
    (closeGroup pending es).outcome = Build.closeGroup pending es := by
  induction pending generalizing es with
  | nil => rfl
  | cons q pending ih =>
    cases q with
    | group => rfl
    | operator o =>
      rw [closeGroup, Build.closeGroup, outcome_bind, outcome_reduce]
      congr 1
      funext es'
      exact ih es'

@[simp] theorem outcome_take (b : Build α) (s : Symbol α) : (take b s).outcome = b.take s := by
  cases s with
  | operand | openParen => rfl
  | operator o => exact outcome_shift b o
  | closeParen => exact outcome_closeGroup ..

/-- **Leaving a trail** makes no difference to what comes of the items. -/
@[simp] theorem outcome_takeAll (symbol : σ → Except Error (Symbol α)) (b : Build α) (items : List σ) :
    (takeAll symbol b items).outcome = Build.takeAll symbol b items := by
  induction items generalizing b with
  | nil => rfl
  | cons i items ih =>
    rw [takeAll, Build.takeAll, List.foldlM_cons, List.foldlM_cons, outcome_bind, outcome_bind]
    simp only [outcome_ofExcept, outcome_take]
    congr 1
    funext c
    exact ih c

end Trail

/-! ## Moves -/

namespace Build

variable {σ α β γ : Type}

/-- One push or one pop, other than opening a parenthesis.  No operand is taken
    off that comes before the innermost open parenthesis. -/
inductive Move : Build α → Build α → Prop
  | pushOperand {es : List (Expr α)} {pending : List Pending} (e : Expr α) :
      Move ⟨es, pending⟩ ⟨e :: es, pending⟩
  | popOperand {e : Expr α} {es : List (Expr α)} {pending : List Pending} :
      floor pending ≤ es.length → Move ⟨e :: es, pending⟩ ⟨es, pending⟩
  | pushOperator {es : List (Expr α)} {pending : List Pending} (o : Operator) :
      Move ⟨es, pending⟩ ⟨es, .operator o :: pending⟩
  | popOperator {es : List (Expr α)} {pending : List Pending} {o : Operator} :
      Move ⟨es, .operator o :: pending⟩ ⟨es, pending⟩
  | closeGroup {es : List (Expr α)} {pending : List Pending} {height : Nat} :
      Move ⟨es, .group height :: pending⟩ ⟨es, pending⟩

/-- Moves lead from a state through others to the last of them. -/
inductive Leads : Build α → List (Build α) → Build α → Prop
  | refl (b : Build α) : Leads b [] b
  | step {b c d : Build α} {states : List (Build α)} :
      Move b c → Leads c states d → Leads b (c :: states) d

theorem Leads.append {b c d : Build α} {before behind : List (Build α)} (h : Leads b before c)
    (h' : Leads c behind d) : Leads b (before ++ behind) d := by
  induction h with
  | refl => exact h'
  | step hmove _ ih => exact .step hmove (ih h')

/-- The state that moves lead to is the last one. -/
theorem Leads.exists_eq_concat {b c : Build α} {states : List (Build α)} (h : Leads b states c) :
    ∃ passed, b :: states = passed ++ [c] := by
  induction h with
  | refl b => exact ⟨[], rfl⟩
  | @step b _ _ _ _ _ ih =>
    obtain ⟨passed, heq⟩ := ih
    exact ⟨b :: passed, by rw [heq]; rfl⟩

/-- From the state `b` on, a computation goes by moves.  If it does not fail, it
    ends where its outcome says. -/
def Goes (b : Build α) (x : Trail (Build α) β) (stop : β → Build α) : Prop :=
  ∃ c, Leads b x.states c ∧ ∀ a, x.outcome = .ok a → c = stop a

namespace Goes

variable {b c : Build α} {x : Trail (Build α) β} {stop : β → Build α}

theorem pure (a : β) (h : b = stop a) : Goes b (pure a) stop :=
  ⟨b, .refl b, fun _ h' => by cases h'; exact h⟩

theorem bind {f : β → Trail (Build α) γ} {stop' : γ → Build α} (hx : Goes b x stop)
    (hf : ∀ a, Goes (stop a) (f a) stop') : Goes b (x >>= f) stop' := by
  obtain ⟨c, hc, hstop⟩ := hx
  obtain ⟨states, _ | a⟩ := x
  · exact ⟨c, hc, nofun⟩
  · obtain rfl := hstop a rfl
    obtain ⟨d, hd, hstop'⟩ := hf a
    exact ⟨d, hc.append hd, hstop'⟩

/-- One move, and what is done in the state behind it. -/
theorem visit (h : Move b c) {y : Trail (Build α) β} (hy : Goes c y stop) :
    Goes b (Trail.visit c >>= fun _ => y) stop := by
  have hvisit : Goes b (Trail.visit c) fun _ => c := ⟨c, .step h (.refl c), fun _ _ => rfl⟩
  exact hvisit.bind fun _ => hy

end Goes

theorem goes_push (e : Expr α) (pending : List Pending) (es : List (Expr α)) :
    Goes ⟨es, pending⟩ (Trail.push e pending es) (Build.mk · pending) :=
  .visit (.pushOperand e) (.pure _ rfl)

theorem goes_pop (o : Operator) (pending : List Pending) (es : List (Expr α)) :
    Goes ⟨es, pending⟩ (Trail.pop o pending es) (fun taken => ⟨taken.2, pending⟩) := by
  cases h : takeOperand o pending es with
  | error e =>
    rw [Trail.pop, h]
    exact ⟨_, .refl _, nofun⟩
  | ok taken =>
    obtain ⟨e, rest⟩ := taken
    obtain ⟨rfl, hfloor⟩ := takeOperand_eq_ok h
    rw [Trail.pop, h]
    exact .visit (.popOperand hfloor) (.pure _ rfl)

theorem goes_reduce (o : Operator) (pending : List Pending) (es : List (Expr α)) :
    Goes ⟨es, .operator o :: pending⟩ (Trail.reduce o pending es) (Build.mk · pending) := by
  refine .visit .popOperator (.bind (goes_pop o pending es) fun taken => ?_)
  obtain ⟨right, rest⟩ := taken
  cases o with
  | negate => exact goes_push ..
  | binary op => exact .bind (goes_pop _ pending rest) fun _ => goes_push ..

theorem goes_settle (p : Nat) (pending : List Pending) (es : List (Expr α)) :
    Goes ⟨es, pending⟩ (Trail.settle p pending es) id := by
  induction pending generalizing es with
  | nil => exact .pure _ rfl
  | cons q pending ih =>
    cases q with
    | group => exact .pure _ rfl
    | operator o =>
      rw [Trail.settle]
      split
      · exact .pure _ rfl
      · exact .bind (goes_reduce o pending es) ih

theorem goes_arrive {b c : Build α} (h : Move b c) : Goes b (Trail.arrive c) id :=
  .visit h (.pure _ rfl)

theorem goes_shift (b : Build α) (o : Operator) : Goes b (Trail.shift b o) id := by
  have harrive (settled : Build α) : Goes settled (Trail.arrive
      { settled with pending := .operator o :: settled.pending }) id :=
    goes_arrive (.pushOperator o)
  unfold Trail.shift
  split
  · exact harrive b
  · exact .bind (goes_settle ..) harrive

theorem goes_closeGroup (pending : List Pending) (es : List (Expr α)) :
    Goes ⟨es, pending⟩ (Trail.closeGroup pending es) id := by
  induction pending generalizing es with
  | nil => exact ⟨_, .refl _, nofun⟩
  | cons q pending ih =>
    cases q with
    | operator o => exact .bind (goes_reduce o pending es) ih
    | group height =>
      refine .visit .closeGroup ⟨_, .refl _, fun c hc => ?_⟩
      -- the opening parenthesis is gone and, unless this fails, nothing else happens
      rw [Trail.outcome_ofExcept, closeGroup] at hc
      split at hc <;> cases hc
      rfl

/-- **A symbol** leads to the next state by moves, unless it opens a
    parenthesis. -/
theorem goes_take (b : Build α) {s : Symbol α} (hs : s ≠ .openParen) :
    Goes b (Trail.take b s) id := by
  cases s with
  | operand a => exact goes_arrive (.pushOperand _)
  | operator o => exact goes_shift b o
  | openParen => exact absurd rfl hs
  | closeParen => exact goes_closeGroup ..

/-! ## Whole trails -/

variable {symbol : σ → Except Error (Symbol α)} {items : List σ} {b c : Build α}

/-- The states that items lead through, from the empty one on. -/
def trail (symbol : σ → Except Error (Symbol α)) (items : List σ) : List (Build α) :=
  empty :: (Trail.takeAll symbol empty items).states

theorem takeAll_concat (symbol : σ → Except Error (Symbol α)) (b : Build α) (items : List σ)
    (i : σ) : takeAll symbol b (items ++ [i]) =
      takeAll symbol b items >>= fun c => symbol i >>= c.take := by
  simp only [takeAll, List.foldlM_append, List.foldlM_cons, List.foldlM_nil, bind_pure]

/-- **One item more** adds the states that it leads through, if there is
    something to go on from and it can be read. -/
theorem trail_concat (symbol : σ → Except Error (Symbol α)) (items : List σ) (i : σ) :
    trail symbol (items ++ [i]) = trail symbol items ++
      (Trail.ofExcept (takeAll symbol empty items) >>= fun b =>
        Trail.ofExcept (symbol i) >>= Trail.take b).states := by
  have hconcat : Trail.takeAll symbol empty (items ++ [i]) =
      Trail.takeAll symbol empty items >>= fun b => Trail.ofExcept (symbol i) >>= Trail.take b := by
    simp only [Trail.takeAll, List.foldlM_append, List.foldlM_cons, List.foldlM_nil, bind_pure]
  rw [trail, trail, hconcat, ← Trail.outcome_takeAll]
  obtain ⟨states, _ | b⟩ := Trail.takeAll symbol empty items
  · exact (List.append_nil _).symm
  · rfl

/-- The states of a symbol end with the one that it leads to. -/
theorem exists_eq_concat_of_take {s : Symbol α} (h : b.take s = .ok c) :
    ∃ passed, b :: (Trail.take b s).states = passed ++ [c] := by
  by_cases hs : s = .openParen
  · subst hs
    cases h
    exact ⟨[b], rfl⟩
  · obtain ⟨d, hleads, hstop⟩ := goes_take b hs
    obtain rfl := hstop c (by rw [Trail.outcome_take, h])
    exact hleads.exists_eq_concat

/-- **The state that items lead to** is the last one of their trail. -/
theorem trail_eq_concat (h : takeAll symbol empty items = .ok b) :
    ∃ passed, trail symbol items = passed ++ [b] := by
  induction items using List.reverseRecOn generalizing b with
  | nil =>
    cases h
    exact ⟨[], rfl⟩
  | append_singleton items i ih =>
    rw [takeAll_concat] at h
    obtain ⟨c, hc, h⟩ := bind_eq_ok.1 h
    obtain ⟨s, hs, htake⟩ := bind_eq_ok.1 h
    obtain ⟨before, hbefore⟩ := ih hc
    obtain ⟨behind, hbehind⟩ := exists_eq_concat_of_take htake
    refine ⟨before ++ behind, ?_⟩
    rw [trail_concat, hc, hs, hbefore, List.append_assoc, List.append_assoc, ← hbehind]
    rfl

end Build

end Reckon
