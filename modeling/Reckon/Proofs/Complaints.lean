/-
  Reckon — what is told of tokens out of balance.

  Tokens are accepted just when there is one operand more than there are
  binary operators and the parentheses among them make up a word of the
  grammar `B ::= empty | (B)B`.  Otherwise each complaint that is due is told.

  * `Paired`: the words of the grammar; `nesting_eq_iff`: a nesting without a
    trace is that of such a word.  The parentheses that are read at some depth
    are words with as many closing parentheses between them (`Closes`);
  * `nesting_counts`: how deep tokens are nested, and whether a parenthesis was
    closed early, by counting in prefixes;
  * `Complaint.Due`: when a complaint is due, and `mem_complaints`: then it is
    told;
  * `message_infix_iff`: the text of an error has in it the texts of what it
    complains about, and of nothing else.
-/
import Reckon.Proofs.Consumption
import Reckon.Proofs.Nested

namespace Reckon

/-! ## Words of parentheses -/

/-- The words of the grammar `B ::= empty | (B)B`. -/
inductive Paired : List Kind → Prop
  | nil : Paired []
  | group {v w : List Kind} : Paired v → Paired w →
      Paired (.openParen :: (v ++ .closeParen :: w))

theorem Paired.nested {w : List Kind} (h : Paired w) : Nested .openParen .closeParen w := by
  induction h with
  | nil => exact .nil
  | group _ _ ihv ihw => exact .group ihv ihw

/-- Words with `n` closing parentheses between them. -/
inductive Closes : Nat → List Kind → Prop
  | word {w : List Kind} : Paired w → Closes 0 w
  | next {n : Nat} {v w : List Kind} : Paired v → Closes n w →
      Closes (n + 1) (v ++ .closeParen :: w)

theorem Closes.group {n : Nat} {v w : List Kind} (hv : Paired v) (h : Closes n w) :
    Closes n (.openParen :: (v ++ .closeParen :: w)) := by
  cases h with
  | word hw => exact .word (.group hv hw)
  | @next n u w hu hw =>
    have hgroup := Closes.next (.group hv hu) hw
    rwa [List.cons_append, List.append_assoc] at hgroup

/-- What leads back from some depth without closing early. -/
theorem closes_of_foldl {ks : List Kind} {n : Nat}
    (h : ks.foldl Nesting.step ⟨n, false⟩ = ⟨0, false⟩) : Closes n (ks.filter Kind.isParen) := by
  induction ks generalizing n with
  | nil =>
    obtain rfl : n = 0 := Int.natCast_eq_zero.1 (congrArg Nesting.depth h)
    exact .word .nil
  | cons k ks ih =>
    rw [List.foldl_cons] at h
    cases k with
    | var | number | operator => exact ih h
    | openParen =>
      -- the next closing parenthesis is its partner
      have hinside : Closes (n + 1) (ks.filter Kind.isParen) := ih (by exact_mod_cast h)
      rw [List.filter_cons_of_pos rfl]
      generalize ks.filter Kind.isParen = w at hinside
      cases hinside with
      | next hv hw => exact hw.group hv
    | closeParen =>
      rw [List.filter_cons_of_pos rfl]
      cases n with
      | zero =>
        have hclosed : (⟨0, false⟩ : Nesting).closedEarly = true := by
          rw [← h]
          exact closedEarly_foldl rfl
        cases hclosed
      | succ n =>
        refine .next .nil (ih ?_)
        have hstep : Nesting.step ⟨(n + 1 : Nat), false⟩ .closeParen = ⟨n, false⟩ := by
          simp [Nesting.step]
        rwa [hstep] at h

theorem foldl_nesting_filter (ks : List Kind) (n : Nesting) :
    (ks.filter Kind.isParen).foldl Nesting.step n = ks.foldl Nesting.step n := by
  induction ks generalizing n with
  | nil => rfl
  | cons k ks ih =>
    cases k with
    | openParen | closeParen => exact ih _
    | var | number | operator => exact ih _

/-- **Parentheses in balance** are a word of the grammar. -/
theorem nesting_eq_iff {ks : List Kind} :
    nesting ks = ⟨0, false⟩ ↔ Paired (ks.filter Kind.isParen) := by
  constructor
  · intro h
    have hcloses : Closes 0 (ks.filter Kind.isParen) := closes_of_foldl h
    generalize ks.filter Kind.isParen = w at hcloses
    cases hcloses with
    | word hw => exact hw
  · intro h
    rw [nesting, ← foldl_nesting_filter]
    exact h.nested.nesting_eq

/-! ## Prefixes -/

theorem nesting_concat (ks : List Kind) (k : Kind) : nesting (ks ++ [k]) = (nesting ks).step k :=
  List.foldl_append

/-- **Nesting by counting.**  The depth is told by all parentheses, and closing
    early by those of some prefix. -/
theorem nesting_counts (ks : List Kind) :
    (nesting ks).depth = ks.count .openParen - ks.count .closeParen ∧
      ((nesting ks).closedEarly = true ↔
        ∃ p, p <+: ks ∧ p.count .openParen < p.count .closeParen) := by
  induction ks using List.reverseRecOn with
  | nil => exact ⟨rfl, iff_of_false nofun fun ⟨p, hp, hlt⟩ => by simp_all⟩
  | append_singleton ks k ih =>
    obtain ⟨hdepth, hearly⟩ := ih
    -- the only new prefix is the whole list
    have hstart : (∃ p, p <+: ks ++ [k] ∧ p.count .openParen < p.count .closeParen) ↔
        (ks ++ [k]).count .openParen < (ks ++ [k]).count .closeParen ∨
          (nesting ks).closedEarly = true := by
      simp only [List.prefix_concat_iff, or_and_right, exists_or, exists_eq_left, hearly]
    have hself : ks.count .openParen < ks.count .closeParen → (nesting ks).closedEarly = true :=
      fun hlt => hearly.2 ⟨ks, List.prefix_refl _, hlt⟩
    rw [hstart, nesting_concat, List.count_append, List.count_append]
    cases k with
    | var | number | operator =>
      exact ⟨hdepth, ⟨.inr, fun h => h.elim hself id⟩⟩
    | openParen =>
      have hopen : [Kind.openParen].count .openParen = 1 := rfl
      have hclose : [Kind.openParen].count .closeParen = 0 := rfl
      rw [hopen, hclose]
      refine ⟨?_, .inr, fun h => h.elim (fun hlt => hself (by omega)) id⟩
      simp only [Nesting.step]
      omega
    | closeParen =>
      have hopen : [Kind.closeParen].count .openParen = 0 := rfl
      have hclose : [Kind.closeParen].count .closeParen = 1 := rfl
      rw [hopen, hclose]
      simp only [Nesting.step, Bool.or_eq_true, decide_eq_true_eq]
      refine ⟨by omega, ?_⟩
      rw [or_comm]
      refine or_congr_left ?_
      omega

/-! ## Complaints -/

/-- When a complaint is due: the operands are not one more than the binary
    operators, a closing parenthesis is not opened before, or an opening one is
    not closed and no such thing comes first. -/
def Complaint.Due (ks : List Kind) : Complaint → Prop
  | tooManyOperands => ks.countP Kind.isBinary + 1 < ks.countP Kind.isOperand
  | notEnoughOperands => ks.countP Kind.isOperand < ks.countP Kind.isBinary + 1
  | notEnoughOpening => ∃ p, p <+: ks ∧ p.count .openParen < p.count .closeParen
  | notEnoughClosing =>
    (∀ p, p <+: ks → p.count .closeParen ≤ p.count .openParen) ∧
      ks.count .closeParen < ks.count .openParen

/-- Whether a complaint is about operands, and not about parentheses. -/
def Complaint.ofOperands : Complaint → Bool
  | tooManyOperands | notEnoughOperands => true
  | notEnoughOpening | notEnoughClosing => false

theorem mem_operandComplaints {ks : List Kind} {c : Complaint} :
    c ∈ operandComplaints ks ↔ c.ofOperands = true ∧ c.Due ks := by
  dsimp only [operandComplaints]
  split
  · rw [List.mem_singleton]
    cases c <;> simp [Complaint.ofOperands, Complaint.Due] <;> omega
  · split
    · rw [List.mem_singleton]
      cases c <;> simp [Complaint.ofOperands, Complaint.Due] <;> omega
    · cases c <;> simp [Complaint.ofOperands, Complaint.Due] <;> omega

theorem mem_parenthesisComplaints {ks : List Kind} {c : Complaint} :
    c ∈ parenthesisComplaints ks ↔ c.ofOperands = false ∧ c.Due ks := by
  obtain ⟨hdepth, hearly⟩ := nesting_counts ks
  -- a depth below zero is that of the whole list, which is a prefix too
  have hopening : ((nesting ks).closedEarly || decide ((nesting ks).depth < 0)) = true ↔
      Complaint.notEnoughOpening.Due ks := by
    rw [Bool.or_eq_true, decide_eq_true_eq, hearly]
    exact or_iff_left_of_imp fun hlt => ⟨ks, List.prefix_refl _, by omega⟩
  dsimp only [parenthesisComplaints]
  by_cases h : Complaint.notEnoughOpening.Due ks
  · rw [if_pos (hopening.2 h), List.mem_singleton]
    obtain ⟨p, hp, hlt⟩ := h
    cases c with
    | tooManyOperands | notEnoughOperands => exact iff_of_false nofun nofun
    | notEnoughOpening => exact iff_of_true rfl ⟨rfl, p, hp, hlt⟩
    | notEnoughClosing =>
      exact iff_of_false nofun fun hdue => absurd (hdue.2.1 p hp) (Nat.not_le.2 hlt)
  · rw [if_neg (mt hopening.1 h)]
    have hall : ∀ p, p <+: ks → p.count .closeParen ≤ p.count .openParen :=
      fun p hp => Nat.not_lt.1 fun hlt => h ⟨p, hp, hlt⟩
    by_cases hlt : (nesting ks).depth > 0
    · rw [if_pos hlt, List.mem_singleton]
      cases c with
      | tooManyOperands | notEnoughOperands => exact iff_of_false nofun nofun
      | notEnoughOpening => exact iff_of_false nofun fun hdue => h hdue.2
      | notEnoughClosing => exact iff_of_true rfl ⟨rfl, hall, by omega⟩
    · rw [if_neg hlt]
      refine iff_of_false List.not_mem_nil fun ⟨hparen, hdue⟩ => ?_
      cases c with
      | tooManyOperands | notEnoughOperands => cases hparen
      | notEnoughOpening => exact h hdue
      | notEnoughClosing =>
        have := hdue.2
        omega

/-- **Each complaint that is due is told**, and no other one. -/
theorem mem_complaints {ks : List Kind} {c : Complaint} : c ∈ complaints ks ↔ c.Due ks := by
  rw [complaints, List.mem_append, mem_operandComplaints, mem_parenthesisComplaints]
  cases c.ofOperands <;> simp

/-- Of two complaints about the same, one is told at most. -/
theorem pairwise_either {R : Complaint → Complaint → Prop} {p q : Prop} [Decidable p] [Decidable q]
    {c d : Complaint} : (if p then [c] else if q then [d] else []).Pairwise R := by
  split
  · exact List.pairwise_singleton _ _
  · split
    · exact List.pairwise_singleton _ _
    · exact .nil

theorem complaints_inOrder (ks : List Kind) :
    (complaints ks).Pairwise fun c d => c.ofOperands = true ∧ d.ofOperands = false := by
  refine List.pairwise_append.2 ⟨pairwise_either, pairwise_either, fun c hc d hd => ?_⟩
  exact ⟨(mem_operandComplaints.1 hc).1, (mem_parenthesisComplaints.1 hd).1⟩

/-! ## Messages -/

/-- What is found in a text without `a` is found on one side of `a`. -/
theorem infix_append_cons_iff {α : Type} {m xs ys : List α} {a : α} (h : a ∉ m) :
    m <:+: xs ++ a :: ys ↔ m <:+: xs ∨ m <:+: ys := by
  constructor
  · intro hm
    have hstart {l : List α} (hl : l <+: a :: ys) (hmem : l ⊆ m) : l = [] := by
      obtain rfl | ⟨t, rfl, -⟩ := List.prefix_cons_iff.1 hl
      · rfl
      · exact absurd (hmem (List.mem_cons_self ..)) h
    obtain hxs | hys | ⟨l₁, l₂, rfl, hl₁, hl₂⟩ := List.infix_append_iff.1 hm
    · exact .inl hxs
    · obtain hys | hys := List.infix_cons_iff.1 hys
      · rw [hstart hys (List.Subset.refl _)]
        exact .inl (List.nil_infix)
      · exact .inr hys
    · rw [hstart hl₂ (List.subset_append_right ..), List.append_nil]
      exact .inl hl₁.isInfix
  · rintro (hm | hm)
    · exact hm.trans (List.prefix_append _ _).isInfix
    · exact hm.trans ⟨xs ++ [a], [], by simp⟩

namespace Complaint

theorem semicolon_not_mem_message (c : Complaint) : ';' ∉ c.message.toList := by
  cases c <;> decide +kernel

theorem colon_not_mem_message (c : Complaint) : ':' ∉ c.message.toList := by
  cases c <;> decide +kernel

theorem length_message (c : Complaint) : 29 < c.message.toList.length := by
  cases c <;> decide +kernel

/-- No complaint is worded with the words of another one. -/
theorem message_infix_cons_iff {c d : Complaint} :
    c.message.toList <:+: ' ' :: d.message.toList ↔ c = d := by
  cases c <;> cases d <;> decide +kernel

/-- Among complaints one behind the other, just these are found. -/
theorem message_infix_intercalate_iff {c : Complaint} {cs : List Complaint} :
    c.message.toList <:+: ' ' :: ("; ".intercalate (cs.map message)).toList ↔ c ∈ cs := by
  have hseparator : "; ".toList = [';', ' '] := rfl
  induction cs with
  | nil =>
    refine iff_of_false (fun h => ?_) List.not_mem_nil
    have hle := h.length_le
    have hlong := c.length_message
    simp at hle
    omega
  | cons d cs ih =>
    cases cs with
    | nil =>
      rw [List.map_singleton, String.intercalate_singleton, message_infix_cons_iff,
        List.mem_singleton]
    | cons d' cs =>
      have hsplit : ' ' :: ("; ".intercalate ((d :: d' :: cs).map message)).toList =
          ' ' :: d.message.toList ++
            ';' :: ' ' :: ("; ".intercalate ((d' :: cs).map message)).toList := by
        simp [String.toList_intercalate, hseparator]
      rw [hsplit, infix_append_cons_iff c.semicolon_not_mem_message, message_infix_cons_iff,
        List.mem_cons]
      exact or_congr_right ih

/-- **An error tells what is complained about**, and nothing else. -/
theorem message_infix_iff {c : Complaint} {cs : List Complaint} :
    c.message.toList <:+: (Error.lexical (.unbalanced cs)).message.toList ↔ c ∈ cs := by
  have hhead : "Lexical error: ".toList = "Lexical error".toList ++ [':', ' '] := rfl
  have hmessage : (Error.lexical (.unbalanced cs)).message =
      "Lexical error: " ++ "; ".intercalate (cs.map message) := rfl
  rw [hmessage, String.toList_append, hhead, List.append_assoc, List.cons_append,
    infix_append_cons_iff c.colon_not_mem_message, List.singleton_append,
    message_infix_intercalate_iff]
  refine or_iff_right fun h => ?_
  have hle := h.length_le
  have hlong := c.length_message
  have hshort : "Lexical error".toList.length = 13 := rfl
  omega

end Complaint

/-! ## The check -/

/-- **The check for balance.**  Tokens pass it just when there is one operand
    more than there are binary operators and the parentheses are a word of the
    grammar.  Otherwise each complaint that is due is told, whatever else is
    due, those about operands first, and what is told is what the error says. -/
theorem checkBalance_tells (ts : List Token) :
    let ks := ts.map Token.kind
    (checkBalance ts = .ok () ↔
      ks.countP Kind.isOperand = ks.countP Kind.isBinary + 1 ∧
        Paired (ks.filter Kind.isParen)) ∧
    ∀ e, checkBalance ts = .error e → ∃ cs, e = .lexical (.unbalanced cs) ∧
      e.message = "Lexical error: " ++ "; ".intercalate (cs.map Complaint.message) ∧
      (cs.Pairwise fun c d => c.ofOperands = true ∧ d.ofOperands = false) ∧
      ∀ c, (c ∈ cs ↔ c.Due ks) ∧ (c.message.toList <:+: e.message.toList ↔ c.Due ks) := by
  intro ks
  refine ⟨?_, fun e h => ⟨complaints ks, checkBalance_eq_error h, ?_, complaints_inOrder ks, ?_⟩⟩
  · rw [checkBalance_eq_ok_iff, ← nesting_eq_iff]
    exact ⟨fun h => ⟨h.operands, h.nested⟩, fun h => ⟨h.1, h.2⟩⟩
  · rw [checkBalance_eq_error h]
    rfl
  · intro c
    rw [checkBalance_eq_error h, Complaint.message_infix_iff]
    exact ⟨mem_complaints, mem_complaints⟩

/-- A parenthesis that is closed early is told of, also where more are opened
    behind it and the operands are too many. -/
theorem checkBalance_tells_closed_early :
    let x : Token := ⟨.var, "x", 0, 1⟩
    let opening : Token := ⟨.openParen, "(", 0, 1⟩
    let close : Token := ⟨.closeParen, ")", 0, 1⟩
    ∃ e, checkBalance [close, x, x, opening, opening] = .error e ∧
      "not enough opening parentheses".toList <:+: e.message.toList ∧
      ¬ "not enough closing parentheses".toList <:+: e.message.toList ∧
      "too many operands for binary operators".toList <:+: e.message.toList := by
  intro x opening close
  have hfails : checkBalance [close, x, x, opening, opening] =
      .error (.lexical (.unbalanced [.tooManyOperands, .notEnoughOpening])) := by rfl
  obtain ⟨cs, -, -, -, htold⟩ := (checkBalance_tells [close, x, x, opening, opening]).2 _ hfails
  have hearly : Complaint.notEnoughOpening.Due [.closeParen, .var, .var, .openParen, .openParen] :=
    ⟨[.closeParen], ⟨_, rfl⟩, by decide⟩
  have hmany : Complaint.tooManyOperands.Due [.closeParen, .var, .var, .openParen, .openParen] := by
    unfold Complaint.Due
    decide
  refine ⟨_, hfails, (htold .notEnoughOpening).2.2 hearly, fun hclosing => ?_,
    (htold .tooManyOperands).2.2 hmany⟩
  have hdue := ((htold .notEnoughClosing).2.1 hclosing).1 [.closeParen] ⟨_, rfl⟩
  revert hdue
  decide

end Reckon
