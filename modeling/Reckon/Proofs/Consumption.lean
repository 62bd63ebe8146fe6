/-
  Reckon — what becomes of the tokens.

  Building takes each token once and leaves none out.  The nodes of the
  operands that are there, with the operators that wait, are what has been
  read so far, in some order (`nodes_run`): to apply an operator is to make a
  node of one that waits (`nodes_reduce`), and every other step only moves
  what is there.  Parentheses leave nothing behind.

  * `postorder_build`: the nodes of what is built are the operands and the
    operators that were read;
  * `ofTokens_consumes`: what this says of tokens, checked or not.
-/
import Reckon.Proofs.Leaves
import Reckon.Proofs.Soundness

namespace Reckon

/-! ## Nodes -/

/-- The node that an operator which waits is going to be. -/
def Pending.node? {α : Type} : Pending → Option (Node α)
  | .group _ => none
  | .operator o => some (.operator o)

/-- The node that a symbol is going to be. -/
def Symbol.node? {α : Type} : Symbol α → Option (Node α)
  | .operand a => some (.operand a)
  | .operator o => some (.operator o)
  | .openParen | .closeParen => none

/-- The kind of the tokens that become a node. -/
def Node.kind : Node Operand → Kind
  | .operand (.number _) => .number
  | .operand (.var _) => .var
  | .operator o => .operator o

def Kind.isParen : Kind → Bool
  | .openParen | .closeParen => true
  | _ => false

theorem Node.kind_eq_operator_iff {n : Node Operand} {o : Operator} :
    n.kind = .operator o ↔ n = .operator o := by
  cases n with
  | operand a => cases a <;> simp [kind]
  | operator => simp [kind]

namespace Build

variable {α : Type} {p : Nat} {b c : Build α}

/-- The nodes that are built, and those that waiting operators are going to be. -/
def nodes (b : Build α) : List (Node α) :=
  b.operands.flatMap Expr.postorder ++ b.pending.filterMap Pending.node?

theorem nodes_push (e : Expr α) (es : List (Expr α)) (pending : List Pending) :
    nodes ⟨e :: es, pending⟩ = e.postorder ++ nodes ⟨es, pending⟩ := by
  rw [nodes, List.flatMap_cons, List.append_assoc]
  rfl

theorem nodes_wait (o : Operator) (es : List (Expr α)) (pending : List Pending) :
    (nodes ⟨es, .operator o :: pending⟩).Perm (.operator o :: nodes ⟨es, pending⟩) :=
  List.perm_middle

/-- **Applying an operator** makes a node of it, and keeps all others. -/
theorem nodes_reduce {o : Operator} {pending : List Pending} {es es' : List (Expr α)}
    (h : reduce o pending es = .ok es') :
    (nodes ⟨es', pending⟩).Perm (nodes ⟨es, .operator o :: pending⟩) := by
  obtain ⟨e, rest, rfl, rfl, rfl, -⟩ | ⟨op, l, r, rest, rfl, rfl, rfl, -⟩ := reduce_eq_ok h
  · refine .trans ?_ (nodes_wait ..).symm
    rw [nodes_push, nodes_push, Expr.postorder, List.append_assoc]
    exact List.perm_middle
  · refine .trans ?_ (nodes_wait ..).symm
    rw [nodes_push, nodes_push, nodes_push, Expr.postorder, List.append_assoc]
    refine List.perm_middle.trans (.cons _ ?_)
    rw [← List.append_assoc]
    exact List.perm_append_comm.append_right _

theorem Settles.nodes_perm (h : Settles p b c) : c.nodes.Perm b.nodes := by
  induction h with
  | refl => exact .refl _
  | reduce _ hreduce _ ih => exact ih.trans (nodes_reduce hreduce)

/-- **One symbol more** is one node more, unless it is a parenthesis. -/
theorem nodes_take {s : Symbol α} (h : b.take s = .ok c) :
    c.nodes.Perm (s.node?.toList ++ b.nodes) := by
  cases s with
  | operand a =>
    cases h
    exact .of_eq (nodes_push ..)
  | operator o =>
    obtain ⟨d, hsettles, rfl⟩ := settles_of_shift h
    exact (nodes_wait ..).trans (hsettles.nodes_perm.cons _)
  | openParen =>
    cases h
    exact .refl _
  | closeParen =>
    obtain ⟨height, -, hsettles⟩ := settles_of_closeGroup h
    exact hsettles.nodes_perm

/-- **A run.**  The nodes, built or to be built, are the symbols that were
    read. -/
theorem nodes_run {ss : List (Symbol α)} (h : run b ss = .ok c) :
    c.nodes.Perm (ss.filterMap Symbol.node? ++ b.nodes) := by
  induction ss generalizing b with
  | nil =>
    cases h
    exact .refl _
  | cons s ss ih =>
    obtain ⟨d, htake, h⟩ := bind_eq_ok.1 h
    refine (ih h).trans (((nodes_take htake).append_left _).trans ?_)
    have hcons : (s :: ss).filterMap Symbol.node? = s.node?.toList ++ ss.filterMap Symbol.node? := by
      cases s <;> rfl
    rw [hcons, ← List.append_assoc]
    exact List.perm_append_comm.append_right _

/-- **The nodes of what is built** are the operands and operators that were
    read, in some order. -/
theorem postorder_build {ss : List (Symbol α)} {e : Expr α} (hrun : run empty ss = .ok b)
    (hfinish : finish b.pending b.operands = .ok e) :
    e.postorder.Perm (ss.filterMap Symbol.node?) := by
  have hone : nodes ⟨[e], []⟩ = e.postorder := by simp [nodes]
  rw [← hone]
  refine (settles_of_finish hfinish).nodes_perm.trans ((nodes_run hrun).trans (.of_eq ?_))
  exact List.append_nil _

end Build

/-! ## Tokens -/

/-- What a token stands for as an operand: a name as it is written, or the
    value of the text of a number. -/
inductive Token.Denotes (t : Token) : Operand → Prop
  | var : t.kind = .var → Denotes t (.var t.text)
  | number {x : Binary64} : t.kind = .number → Binary64.read t.text = .ok x →
      x.isFinite = true → Denotes t (.number x)

theorem Token.denotes_of_symbol {t : Token} {a : Operand} (h : t.symbol = .ok (.operand a)) :
    t.Denotes a := by
  unfold Token.symbol at h
  split at h
  · cases h
    exact .var ‹_›
  · obtain ⟨x, hx, h⟩ := bind_eq_ok.1 h
    cases h
    obtain ⟨hread, hfinite⟩ := readNumber_eq_ok hx
    exact .number ‹_› hread hfinite
  all_goals cases h

section Symbols

variable {ts : List Token} {ss : List (Symbol Operand)}
  (h : List.Forall₂ (fun t s => t.symbol = .ok s) ts ss)
include h

/-- The operands among the symbols are what the tokens denote that are operands. -/
theorem denotes_of_symbols :
    List.Forall₂ Token.Denotes (ts.filter (·.kind.isOperand)) (ss.filterMap Symbol.operand?) := by
  induction h with
  | nil => exact .nil
  | @cons t s ts ss hts _ ih =>
    have hkind := Token.kind_of_symbol hts
    cases s with
    | operand a =>
      have hop : t.kind.isOperand = true := by
        rw [← hkind]
        cases a <;> rfl
      have hkeep : (t :: ts).filter (·.kind.isOperand) = t :: ts.filter (·.kind.isOperand) :=
        List.filter_cons_of_pos hop
      rw [hkeep, List.filterMap_cons_some (f := Symbol.operand?) rfl]
      exact .cons (Token.denotes_of_symbol hts) ih
    | operator | openParen | closeParen =>
      have hop : ¬ t.kind.isOperand = true := by
        rw [← hkind]
        exact Bool.false_ne_true
      have hdrop : (t :: ts).filter (·.kind.isOperand) = ts.filter (·.kind.isOperand) :=
        List.filter_cons_of_neg hop
      rw [hdrop, List.filterMap_cons_none rfl]
      exact ih

/-- The kinds of the tokens are those of the nodes and of the parentheses. -/
theorem map_kind_nodes_of_symbols :
    (ss.filterMap Symbol.node?).map Node.kind = (ts.map Token.kind).filter (!·.isParen) := by
  induction h with
  | nil => rfl
  | @cons t s ts ss hts _ ih =>
    rw [List.map_cons, ← Token.kind_of_symbol hts]
    cases s with
    | operand a =>
      rw [List.filterMap_cons_some (f := Symbol.node?) rfl, List.map_cons, ih]
      cases a <;> rfl
    | operator o =>
      rw [List.filterMap_cons_some (f := Symbol.node?) rfl, List.map_cons, ih]
      rfl
    | openParen | closeParen =>
      rw [List.filterMap_cons_none rfl, ih]
      rfl

end Symbols

/-- The kinds of the nodes are the kinds of the tokens that are no parentheses. -/
theorem map_kind_postorder {ts : List Token} {f : Formula} (h : Formula.ofTokens ts = .ok f) :
    (f.postorder.map Node.kind).Perm ((ts.map Token.kind).filter (!·.isParen)) := by
  obtain ⟨b, hall, hfinish⟩ := bind_eq_ok.1 h
  obtain ⟨ss, hss, hrun⟩ := Build.takeAll_eq_ok_iff.1 hall
  rw [← map_kind_nodes_of_symbols hss]
  exact (Build.postorder_build hrun hfinish).map _

/-- **Every token is used once.**  The leaves of what is built from any tokens
    are the operands among them, in their order; its nodes with an operator are
    as many as the tokens with this operator; and there are no other nodes, as
    parentheses leave none. -/
theorem Formula.ofTokens_consumes {ts : List Token} {f : Formula}
    (h : Formula.ofTokens ts = .ok f) :
    List.Forall₂ Token.Denotes (ts.filter (·.kind.isOperand)) f.leaves ∧
    (∀ o, f.postorder.count (.operator o) = ts.countP (·.kind = .operator o)) ∧
    f.postorder.length + ts.countP (·.kind.isParen) = ts.length := by
  have hkinds := map_kind_postorder h
  refine ⟨?_, fun o => ?_, ?_⟩
  · obtain ⟨b, hall, hfinish⟩ := bind_eq_ok.1 h
    obtain ⟨ss, hss, hrun⟩ := Build.takeAll_eq_ok_iff.1 hall
    rw [leaves_build hrun hfinish]
    exact denotes_of_symbols hss
  · calc f.postorder.count (.operator o)
        = (f.postorder.map Node.kind).count (.operator o) := by
          rw [List.count, List.count, List.countP_map]
          refine List.countP_congr fun n _ => ?_
          simp [Node.kind_eq_operator_iff]
      _ = (ts.map Token.kind).count (.operator o) := by
          rw [hkinds.count_eq, List.count_filter (by rfl)]
      _ = ts.countP (·.kind = .operator o) := by
          rw [List.count, List.countP_map]
          rfl
  · have hnot : ts.countP (fun t => !t.kind.isParen) = ts.countP fun t => ¬ t.kind.isParen = true :=
      List.countP_congr fun t _ => by simp
    have hlength := hkinds.length_eq
    rw [List.length_map, ← List.countP_eq_length_filter, List.countP_map] at hlength
    rw [List.length_eq_countP_add_countP fun t : Token => t.kind.isParen, ← hnot, Nat.add_comm]
    exact congrArg _ hlength

theorem exists_of_isOk {ε α : Type} {x : Except ε α} (h : x.isOk = true) : ∃ a, x = .ok a := by
  cases x with
  | error e => cases h
  | ok a => exact ⟨a, rfl⟩

/-- Operators behind all operands, one of which is in parentheses. -/
theorem ofTokens_consumes_misplaced :
    let ts : List Token := [⟨.openParen, "(", 0, 1⟩, ⟨.var, "x", 1, 2⟩, ⟨.closeParen, ")", 2, 3⟩,
      ⟨.number, "2", 3, 4⟩, ⟨.operator (.binary .mul), "*", 4, 5⟩, ⟨.operator .negate, "-", 5, 6⟩]
    ∃ f, Formula.ofTokens ts = .ok f ∧
      List.Forall₂ Token.Denotes [⟨.var, "x", 1, 2⟩, ⟨.number, "2", 3, 4⟩] f.leaves ∧
      f.postorder.count (.operator .negate) = 1 ∧ f.postorder.length + 2 = 6 := by
  intro ts
  have hok : (Formula.ofTokens ts).isOk = true := by decide +kernel
  obtain ⟨f, hbuild⟩ := exists_of_isOk hok
  obtain ⟨hleaves, hcount, hlength⟩ := Formula.ofTokens_consumes hbuild
  exact ⟨f, hbuild, hleaves, hcount .negate, hlength⟩

end Reckon
