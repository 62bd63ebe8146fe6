/-
  Reckon — what the check for balance has to do with building.

  Two counts tie the state of building to the kinds that have been read
  (`Counts`): as many parentheses are open as wait, and the operands that are
  there, with the binary operators that were read, are as many as the operands
  that were read, with the binary operators that wait.  Every symbol keeps this
  (`Counts.take`), and so does every run (`Counts.run`).

  * `Blames ks e` is what the error `e` says about the kinds `ks`;
  * `balanced_of_build`: what can be built is in balance;
  * `blames_of_ofTokens`: what cannot be built is what its error says, so that
    tokens in balance lead to a misfit only (`Error.Misfit`).
-/
import Reckon.Proofs.Nested
import Reckon.Proofs.Soundness
import Reckon.Proofs.Stacks

namespace Reckon

open Build

/-! ## Counting -/

namespace Pending

def isGroup : Pending → Bool
  | group _ => true
  | operator _ => false

def isBinary : Pending → Bool
  | operator (.binary _) => true
  | _ => false

end Pending

namespace Build

variable {α : Type} {p : Nat} {b c : Build α}

/-- The parentheses that are open. -/
def opens (b : Build α) : Nat :=
  b.pending.countP Pending.isGroup

/-- The binary operators that wait. -/
def binaries (b : Build α) : Nat :=
  b.pending.countP Pending.isBinary

/-- Applying an operator uses up as many binary operators as operands. -/
theorem count_reduce {o : Operator} {pending : List Pending} {es es' : List (Expr α)}
    (h : reduce o pending es = .ok es') :
    opens ⟨es', pending⟩ = opens ⟨es, .operator o :: pending⟩ ∧
      es.length + binaries ⟨es', pending⟩ = es'.length + binaries ⟨es, .operator o :: pending⟩ := by
  obtain ⟨e, rest, rfl, rfl, rfl, -⟩ | ⟨op, l, r, rest, rfl, rfl, rfl, -⟩ := reduce_eq_ok h
  · exact ⟨rfl, rfl⟩
  · refine ⟨rfl, ?_⟩
    simp only [binaries, List.length_cons, List.countP_cons, Pending.isBinary, if_true]
    omega

theorem Settles.count_eq (h : Settles p b c) :
    c.opens = b.opens ∧ b.operands.length + c.binaries = c.operands.length + b.binaries := by
  induction h with
  | refl => exact ⟨rfl, rfl⟩
  | reduce _ hreduce _ ih =>
    obtain ⟨hopens, hbinaries⟩ := count_reduce hreduce
    obtain ⟨ihopens, ihbinaries⟩ := ih
    dsimp only at ihbinaries ⊢
    exact ⟨ihopens.trans hopens, by omega⟩

end Build

/-- What the kinds that have been read say about the state behind them. -/
structure Counts {α : Type} (ks : List Kind) (b : Build α) : Prop where
  nested : nesting ks = ⟨b.opens, false⟩
  operands : b.operands.length + ks.countP Kind.isBinary =
    ks.countP Kind.isOperand + b.binaries

namespace Counts

variable {ks : List Kind} {b c : Build Operand}

theorem empty : Counts [] (Build.empty : Build Operand) := ⟨rfl, rfl⟩

theorem concat (h : Counts ks b) {k : Kind}
    (hstep : Nesting.step ⟨b.opens, false⟩ k = ⟨c.opens, false⟩)
    (hoperands : c.operands.length + (if k.isBinary = true then 1 else 0) + b.binaries =
      b.operands.length + (if k.isOperand = true then 1 else 0) + c.binaries) :
    Counts (ks ++ [k]) c := by
  constructor
  · rw [nesting, List.foldl_append, ← nesting, h.nested]
    exact hstep
  · have := h.operands
    rw [List.countP_append, List.countP_append, List.countP_singleton, List.countP_singleton]
    omega

/-- **One symbol more.**  The counts still agree behind it. -/
theorem take (h : Counts ks b) {s : Symbol Operand} (htake : b.take s = .ok c) :
    Counts (ks ++ [s.kind]) c := by
  cases s with
  | operand a =>
    cases htake
    cases a <;> exact h.concat rfl rfl
  | operator o =>
    obtain ⟨d, hsettles, rfl⟩ := settles_of_shift htake
    obtain ⟨hopens, hbinaries⟩ := hsettles.count_eq
    refine h.concat ?_ ?_
    · rw [← hopens]
      rfl
    · cases o with
      | negate => exact hbinaries.symm
      | binary op =>
        have hmore : binaries { d with pending := .operator (.binary op) :: d.pending } =
            d.binaries + 1 := List.countP_cons_of_pos (by rfl)
        rw [hmore, if_pos (by rfl), if_neg (by exact Bool.false_ne_true)]
        dsimp only
        omega
  | openParen =>
    cases htake
    refine h.concat ?_ rfl
    have hmore : opens { b with pending := .group b.operands.length :: b.pending } = b.opens + 1 :=
      List.countP_cons_of_pos (by rfl)
    rw [hmore]
    rfl
  | closeParen =>
    obtain ⟨height, -, hsettles⟩ := settles_of_closeGroup htake
    obtain ⟨hopens, hbinaries⟩ := hsettles.count_eq
    have hmore : opens ⟨c.operands, .group height :: c.pending⟩ = c.opens + 1 :=
      List.countP_cons_of_pos (by rfl)
    rw [hmore] at hopens
    refine h.concat ?_ hbinaries.symm
    rw [← hopens]
    simp [Symbol.kind, Nesting.step]

/-- **A run.**  The counts agree behind all of its symbols. -/
theorem run {ss : List (Symbol Operand)} (h : Counts ks b) (hrun : Build.run b ss = .ok c) :
    Counts (ks ++ ss.map Symbol.kind) c := by
  induction ss generalizing ks b with
  | nil =>
    cases hrun
    rw [List.map_nil, List.append_nil]
    exact h
  | cons s ss ih =>
    obtain ⟨d, htake, hrun⟩ := bind_eq_ok.1 hrun
    rw [List.map_cons, List.append_cons]
    exact ih (h.take htake) hrun

/-- A closing parenthesis too many is told, whatever comes behind it. -/
theorem closedEarly (h : Counts ks b) (hopens : b.opens = 0) (rest : List Kind) :
    (nesting (ks ++ .closeParen :: rest)).closedEarly = true := by
  rw [nesting, List.foldl_append, ← nesting, h.nested, hopens, List.foldl_cons]
  exact closedEarly_foldl rfl

end Counts

/-- **What can be built is in balance.** -/
theorem balanced_of_build {ss : List (Symbol Operand)} {b : Build Operand} {f : Formula}
    (hrun : run empty ss = .ok b) (hfinish : finish b.pending b.operands = .ok f) :
    Balanced (ss.map Symbol.kind) := by
  obtain ⟨hnested, hoperands⟩ := Counts.empty.run hrun
  obtain ⟨hopens, hbinaries⟩ := (settles_of_finish hfinish).count_eq
  have hnone : opens (⟨[f], []⟩ : Build Operand) = 0 := rfl
  have hone : binaries (⟨[f], []⟩ : Build Operand) = 0 := rfl
  rw [List.nil_append] at hnested hoperands
  rw [hnone] at hopens
  rw [hone, List.length_singleton] at hbinaries
  change b.operands.length + 0 = 1 + b.binaries at hbinaries
  exact ⟨by omega, by rw [hnested, ← hopens]; rfl⟩

/-! ## Errors -/

/-- What can be wrong with tokens in balance: a number that cannot be read, or
    an operator or a pair of parentheses that does not find its operands. -/
inductive Error.Misfit : Error → Prop
  | invalidNumber (text : String) : Misfit (.lexical (.invalidNumber text))
  | numberOutOfRange (text : String) : Misfit (.lexical (.numberOutOfRange text))
  | missingOperand (o : Operator) : Misfit (.lexical (.missingOperand o))
  | emptyParentheses : Misfit (.lexical .emptyParentheses)
  | unjoinedInside (operands : Nat) : Misfit (.lexical (.unjoinedInside operands))

/-- An operator or a pair of parentheses that does not find its operands. -/
inductive Error.Misplaced : Error → Prop
  | missingOperand (o : Operator) : Misplaced (.lexical (.missingOperand o))
  | emptyParentheses : Misplaced (.lexical .emptyParentheses)
  | unjoinedInside (operands : Nat) : Misplaced (.lexical (.unjoinedInside operands))

theorem Error.Misplaced.misfit {e : Error} (h : e.Misplaced) : e.Misfit := by
  cases h with
  | missingOperand o => exact .missingOperand o
  | emptyParentheses => exact .emptyParentheses
  | unjoinedInside n => exact .unjoinedInside n

/-- What an error of building says about the kinds of all tokens. -/
inductive Blames (ks : List Kind) : Error → Prop
  | misfit {e : Error} : e.Misfit → Blames ks e
  | nothingOpen : (nesting ks).closedEarly = true → Blames ks (.internal .nothingOpen)
  | leftOpen : 0 < (nesting ks).depth → Blames ks (.internal .leftOpen)
  | noOperands : ks.countP Kind.isOperand = ks.countP Kind.isBinary →
      Blames ks (.lexical .noOperands)
  | unjoined {n : Nat} : 1 < n → ks.countP Kind.isOperand = ks.countP Kind.isBinary + n →
      Blames ks (.lexical (.unjoined n))

namespace Build

variable {α : Type} {b : Build α} {e : Error}

theorem takeOperand_eq_error {o : Operator} {pending : List Pending} {es : List (Expr α)}
    (h : takeOperand o pending es = .error e) : e = .lexical (.missingOperand o) := by
  unfold takeOperand at h
  split at h
  · cases h
    rfl
  · rename_i hfloor
    cases es with
    | nil => exact absurd (Nat.zero_le _) hfloor
    | cons => cases h

/-- Where the taking of items fails: at one of them, which is not read or not
    taken. -/
theorem takeAll_eq_error {σ : Type} {symbol : σ → Except Error (Symbol α)} {items : List σ}
    (h : takeAll symbol b items = .error e) :
    ∃ before i after c, items = before ++ i :: after ∧ takeAll symbol b before = .ok c ∧
      (symbol i = .error e ∨ ∃ s, symbol i = .ok s ∧ c.take s = .error e) := by
  obtain ⟨before, i, after, c, rfl, hbefore, h⟩ := foldlM_eq_error_iff.1 h
  exact ⟨before, i, after, c, rfl, hbefore, bind_eq_error.1 h⟩

theorem reduce_eq_error {o : Operator} {pending : List Pending} {es : List (Expr α)}
    (h : reduce o pending es = .error e) : e = .lexical (.missingOperand o) := by
  obtain h | ⟨x, -, h⟩ := bind_eq_error.1 h
  · exact takeOperand_eq_error h
  · cases o with
    | negate => cases h
    | binary op =>
      obtain h | ⟨y, -, h⟩ := bind_eq_error.1 h
      · exact takeOperand_eq_error h
      · cases h

theorem misplaced_of_reduce {o : Operator} {pending : List Pending} {es : List (Expr α)}
    (h : reduce o pending es = .error e) : e.Misplaced := by
  rw [reduce_eq_error h]
  exact .missingOperand o

theorem misplaced_of_settle {p : Nat} {pending : List Pending} {es : List (Expr α)}
    (h : settle p pending es = .error e) : e.Misplaced := by
  induction pending generalizing es with
  | nil => cases h
  | cons q pending ih =>
    cases q with
    | group => cases h
    | operator o =>
      rw [settle] at h
      split at h
      · cases h
      · obtain h | ⟨es', -, h⟩ := bind_eq_error.1 h
        · exact misplaced_of_reduce h
        · exact ih h

theorem misplaced_of_shift {o : Operator} (h : b.shift o = .error e) : e.Misplaced := by
  unfold shift at h
  split at h
  · cases h
  · obtain h | ⟨c, -, h⟩ := bind_eq_error.1 h
    · exact misplaced_of_settle h
    · cases h

theorem misplaced_of_closeGroup {pending : List Pending} {es : List (Expr α)}
    (h : closeGroup pending es = .error e) :
    e.Misplaced ∨ e = .internal .nothingOpen ∧ opens ⟨es, pending⟩ = 0 := by
  induction pending generalizing es with
  | nil =>
    cases h
    exact .inr ⟨rfl, rfl⟩
  | cons q pending ih =>
    cases q with
    | group height =>
      rw [closeGroup] at h
      split at h <;> cases h
      · exact .inl .emptyParentheses
      · exact .inl (.unjoinedInside _)
    | operator o =>
      obtain h | ⟨es', hreduce, h⟩ := bind_eq_error.1 h
      · exact .inl (misplaced_of_reduce h)
      · rw [← (count_reduce hreduce).1]
        exact ih h

theorem misplaced_of_take {s : Symbol α} (h : b.take s = .error e) :
    e.Misplaced ∨ e = .internal .nothingOpen ∧ s = .closeParen ∧ b.opens = 0 := by
  cases s with
  | operand | openParen => cases h
  | operator o => exact .inl (misplaced_of_shift h)
  | closeParen => exact (misplaced_of_closeGroup h).imp_right fun h => ⟨h.1, rfl, h.2⟩

/-- What is wrong in the end: a parenthesis is open, or the operands are not as
    many as the operators that wait need. -/
theorem misplaced_of_finish {pending : List Pending} {es : List (Expr α)}
    (h : finish pending es = .error e) :
    e.Misplaced ∨ e = .internal .leftOpen ∧ 0 < opens ⟨es, pending⟩ ∨
      e = .lexical .noOperands ∧ es.length = binaries ⟨es, pending⟩ ∨
      ∃ n, e = .lexical (.unjoined n) ∧ 1 < n ∧ es.length = binaries ⟨es, pending⟩ + n := by
  induction pending generalizing es with
  | nil =>
    match es with
    | [] =>
      cases h
      exact .inr (.inr (.inl ⟨rfl, rfl⟩))
    | [_] => cases h
    | _ :: _ :: es =>
      cases h
      exact .inr (.inr (.inr ⟨_, rfl, by simp, by simp [binaries]⟩))
  | cons q pending ih =>
    cases q with
    | group height =>
      cases h
      exact .inr (.inl ⟨rfl, by simp [opens, Pending.isGroup]⟩)
    | operator o =>
      obtain h | ⟨es', hreduce, h⟩ := bind_eq_error.1 h
      · exact .inl (misplaced_of_reduce h)
      · obtain ⟨hopens, hbinaries⟩ := count_reduce hreduce
        rw [← hopens]
        obtain h | h | ⟨he, hlen⟩ | ⟨n, he, hn, hlen⟩ := ih h
        · exact .inl h
        · exact .inr (.inl h)
        · exact .inr (.inr (.inl ⟨he, by omega⟩))
        · exact .inr (.inr (.inr ⟨n, he, hn, by omega⟩))

end Build

theorem misfit_of_symbol {t : Token} {e : Error} (h : t.symbol = .error e) : e.Misfit := by
  unfold Token.symbol at h
  split at h
  case h_2 =>
    obtain h | ⟨x, -, h⟩ := bind_eq_error.1 h
    · unfold readNumber at h
      split at h
      · cases h
        exact .invalidNumber _
      · split at h
        · cases h
        · cases h
          exact .numberOutOfRange _
    · cases h
  all_goals cases h

theorem map_kind_of_symbols {ts : List Token} {ss : List (Symbol Operand)}
    (h : List.Forall₂ (fun t s => t.symbol = .ok s) ts ss) :
    ss.map Symbol.kind = ts.map Token.kind := by
  rw [← List.forall₂_eq_eq_eq, List.forall₂_map_left_iff, List.forall₂_map_right_iff]
  exact h.flip.imp fun t s => Token.kind_of_symbol

/-- While tokens are taken, nothing can be wrong but a misfit, or a parenthesis
    that is closed and was not opened before. -/
theorem misfit_of_takeAll {ts : List Token} {ks : List Kind} {b : Build Operand} {e : Error}
    (hb : Counts ks b) (h : takeAll Token.symbol b ts = .error e) :
    e.Misfit ∨ e = .internal .nothingOpen ∧
      (nesting (ks ++ ts.map Token.kind)).closedEarly = true := by
  obtain ⟨before, t, after, c, rfl, hbefore, h | ⟨s, hs, htake⟩⟩ := takeAll_eq_error h
  · exact .inl (misfit_of_symbol h)
  · obtain hmisplaced | ⟨he, rfl, hopens⟩ := misplaced_of_take htake
    · exact .inl hmisplaced.misfit
    · obtain ⟨ss, hss, hrun⟩ := takeAll_eq_ok_iff.1 hbefore
      have hcounts := hb.run hrun
      rw [map_kind_of_symbols hss] at hcounts
      rw [List.map_append, List.map_cons, ← Token.kind_of_symbol hs, ← List.append_assoc]
      exact .inr ⟨he, hcounts.closedEarly hopens _⟩

/-- **Errors of building are to the point.** -/
theorem blames_of_ofTokens {ts : List Token} {e : Error} (h : Formula.ofTokens ts = .error e) :
    Blames (ts.map Token.kind) e := by
  obtain h | ⟨b, hb, h⟩ := bind_eq_error.1 h
  · obtain h | ⟨rfl, hearly⟩ := misfit_of_takeAll .empty h
    · exact .misfit h
    · exact .nothingOpen hearly
  · obtain ⟨ss, hss, hrun⟩ := takeAll_eq_ok_iff.1 hb
    obtain ⟨hnested, hoperands⟩ := Counts.empty.run hrun
    rw [List.nil_append, map_kind_of_symbols hss] at hnested hoperands
    obtain h | ⟨rfl, hopens⟩ | ⟨rfl, hlen⟩ | ⟨n, rfl, hn, hlen⟩ := misplaced_of_finish h
    · exact .misfit h.misfit
    · refine .leftOpen ?_
      rw [hnested]
      exact Int.natCast_pos.2 hopens
    · change b.operands.length = b.binaries at hlen
      exact .noOperands (by omega)
    · change b.operands.length = b.binaries + n at hlen
      exact .unjoined hn (by omega)

/-! ## Checked and built -/

theorem balanced_of_ofTokens {ts : List Token} {f : Formula} (h : Formula.ofTokens ts = .ok f) :
    Balanced (ts.map Token.kind) := by
  obtain ⟨b, hall, hfinish⟩ := bind_eq_ok.1 h
  obtain ⟨ss, hss, hrun⟩ := takeAll_eq_ok_iff.1 hall
  rw [← map_kind_of_symbols hss]
  exact balanced_of_build hrun hfinish

/-- Where tokens are in balance, only a misfit can be to blame. -/
theorem Blames.misfit_of_balanced {ks : List Kind} (hks : Balanced ks) {e : Error}
    (h : Blames ks e) : e.Misfit := by
  obtain ⟨hoperands, hnested⟩ := hks
  cases h with
  | misfit h => exact h
  | nothingOpen h => rw [hnested] at h; cases h
  | leftOpen h => rw [hnested] at h; exact absurd h (lt_irrefl 0)
  | noOperands h => omega
  | unjoined hn h => omega

/-- Parentheses are to blame for internal errors only. -/
theorem Blames.nesting_ne {ks : List Kind} {fault : Fault} (h : Blames ks (.internal fault)) :
    nesting ks ≠ ⟨0, false⟩ := by
  intro hnested
  cases h with
  | misfit h => cases h
  | nothingOpen h => rw [hnested] at h; cases h
  | leftOpen h => rw [hnested] at h; exact absurd h (lt_irrefl 0)

theorem Blames.fault_eq {ks : List Kind} {fault : Fault} (h : Blames ks (.internal fault)) :
    fault = .nothingOpen ∨ fault = .leftOpen := by
  cases h with
  | misfit h => cases h
  | nothingOpen => exact .inl rfl
  | leftOpen => exact .inr rfl

/-- What is told of an internal error is not that something was missing on a
    stack, or was no operator. -/
theorem Stacks.detail_of_build {ts : List Token} {detail : String}
    (h : Stacks.build ts = .error (.internal, detail)) :
    detail = Fault.nothingOpen.message ∨ detail = Fault.leftOpen.message := by
  rw [Stacks.build_eq] at h
  cases hbuild : Formula.ofTokens ts with
  | ok f => rw [hbuild] at h; cases h
  | error e =>
    rw [hbuild] at h
    cases e with
    | internal fault =>
      cases h
      rcases (blames_of_ofTokens hbuild).fault_eq with rfl | rfl
      · exact .inl rfl
      · exact .inr rfl
    | alphabet | lexical | incorrect | arithmetic => cases h

/-- **Checking and building agree**, on any tokens.  What can be built is in
    balance.  Tokens in balance that cannot be built have a number that cannot
    be read, an operator without its operands, or parentheses around nothing
    or around operands that are not joined.  An internal error shows that the
    parentheses are not in pairs, whether or not this has been checked; and
    with stacks of which nothing is known the outcomes are the same, so that
    no error is about an empty stack or about what is no operator. -/
theorem Formula.ofTokens_agrees (ts : List Token) :
    (∀ f, Formula.ofTokens ts = .ok f → checkBalance ts = .ok ()) ∧
    (checkBalance ts = .ok () → ∀ e, Formula.ofTokens ts = .error e → e.Misfit) ∧
    (∀ fault, Formula.ofTokens ts = .error (.internal fault) →
      ¬ Nested .openParen .closeParen (ts.map Token.kind)) ∧
    Stacks.build ts = (Formula.ofTokens ts).mapError Error.told ∧
    ∀ detail, Stacks.build ts = .error (.internal, detail) →
      detail ≠ "operator stack is empty" ∧ detail ≠ "operand stack is empty" ∧
        ∀ k : Kind, detail ≠ k.describe ++ " is not an operator" := by
  refine ⟨fun f h => ?_, fun hbalance e h => ?_, fun fault h hnested => ?_, Stacks.build_eq ts,
    fun detail h => ?_⟩
  · exact checkBalance_eq_ok_iff.2 (balanced_of_ofTokens h)
  · exact (blames_of_ofTokens h).misfit_of_balanced (checkBalance_eq_ok_iff.1 hbalance)
  · exact (blames_of_ofTokens h).nesting_ne hnested.nesting_eq
  · rcases Stacks.detail_of_build h with rfl | rfl
    all_goals
      refine ⟨by decide, by decide, fun k => ?_⟩
      rcases k with _ | _ | ⟨⟨_ | _ | _ | _⟩ | _⟩ | _ | _ <;> decide

/-- An operator behind its operands, one without them, and a parenthesis that
    was never opened. -/
theorem ofTokens_agrees_misplaced :
    let x : Token := ⟨.var, "x", 0, 1⟩
    let plus : Token := ⟨.operator (.binary .add), "+", 0, 1⟩
    let opening : Token := ⟨.openParen, "(", 0, 1⟩
    let close : Token := ⟨.closeParen, ")", 0, 1⟩
    checkBalance [x, x, plus] = .ok () ∧
    (∃ e, Formula.ofTokens [opening, x, plus, close, x] = .error e ∧ e.Misfit) ∧
    (∃ fault, Formula.ofTokens [x, close] = .error (.internal fault) ∧
      ¬ Nested .openParen .closeParen [Kind.var, .closeParen]) ∧
    ∃ detail, Stacks.build [x, close] = .error (.internal, detail) ∧
      detail ≠ "operator stack is empty" := by
  intro x plus opening close
  have hbuilt : Formula.ofTokens [x, x, plus] =
      .ok (.binary .add (.leaf (.var "x")) (.leaf (.var "x"))) := by rfl
  have hmissing : Formula.ofTokens [opening, x, plus, close, x] =
      .error (.lexical (.missingOperand (.binary .add))) := by rfl
  have hclosed : Formula.ofTokens [x, close] = .error (.internal .nothingOpen) := by rfl
  have htold : Stacks.build [x, close] =
      .error (.internal, "closing parenthesis without an open scope") := by rfl
  obtain ⟨hbalanced, -⟩ := Formula.ofTokens_agrees [x, x, plus]
  obtain ⟨-, hmisfit, -⟩ := Formula.ofTokens_agrees [opening, x, plus, close, x]
  obtain ⟨-, -, hnested, -, hdetail⟩ := Formula.ofTokens_agrees [x, close]
  exact ⟨hbalanced _ hbuilt, ⟨_, hmissing, hmisfit rfl _ hmissing⟩, ⟨_, hclosed, hnested _ hclosed⟩,
    ⟨_, htold, (hdetail _ htold).1⟩⟩

end Reckon
