/-
  Reckon — open parentheses and the operands from before them.

  An open parenthesis waits with its height, the number of operands that were
  there when it was opened.  Operators behind it are applied without looking
  for it: all that keeps them off these operands is that no operand is taken
  which the innermost height counts.  This is enough, whatever the items are.

  * `Disciplined`: the heights do not decrease upwards, and there are at least
    as many operands as each of them says;
  * `OpenSince`: where a parenthesis was opened, and that the operands from
    before it have been there ever since;
  * `Kept.move` and `Kept.openParen`: one push or pop keeps both of these;
    `kept_trail`: so they hold all along a trail;
  * `groups_kept` puts this together.
-/
import Reckon.Proofs.Agreement
import Reckon.Proofs.Trails

namespace Reckon

/-- The height of an open parenthesis. -/
def Pending.height? : Pending → Option Nat
  | .group height => some height
  | .operator _ => none

namespace Build

variable {σ α : Type} {b c d : Build α} {pending below : List Pending} {n : Nat}

/-! ## Heights -/

/-- The heights of the open parentheses, from bottom to top. -/
def heights (pending : List Pending) : List Nat :=
  pending.reverse.filterMap Pending.height?

@[simp] theorem heights_operator (o : Operator) (pending : List Pending) :
    heights (.operator o :: pending) = heights pending := by
  simp [heights, Pending.height?]

@[simp] theorem heights_group (n : Nat) (pending : List Pending) :
    heights (.group n :: pending) = heights pending ++ [n] := by
  simp [heights, Pending.height?]

theorem mem_heights_of_suffix (h : .group n :: below <:+ pending) : n ∈ heights pending := by
  rw [heights, List.mem_filterMap]
  exact ⟨_, List.mem_reverse.2 (h.mem (List.mem_cons_self ..)), rfl⟩

/-- The innermost height is the greatest one. -/
theorem le_floor (hascending : (heights pending).Pairwise (· ≤ ·)) (hn : n ∈ heights pending) :
    n ≤ floor pending := by
  induction pending with
  | nil => cases hn
  | cons q pending ih =>
    cases q with
    | operator o =>
      rw [heights_operator] at hascending hn
      exact ih hascending hn
    | group m =>
      rw [heights_group] at hascending hn
      obtain hn | hn := List.mem_append.1 hn
      · exact (List.pairwise_append.1 hascending).2.2 n hn m (List.mem_singleton_self m)
      · exact (List.mem_singleton.1 hn).le

/-- The heights never decrease from bottom to top, and none is above the height
    of the operands. -/
structure Disciplined (b : Build α) : Prop where
  ascending : (heights b.pending).Pairwise (· ≤ ·)
  bounded : ∀ n ∈ heights b.pending, n ≤ b.operands.length

/-- What is there once a parenthesis has been opened. -/
def openGroup (b : Build α) : Build α :=
  { b with pending := .group b.operands.length :: b.pending }

namespace Disciplined

theorem empty : (empty : Build α).Disciplined := ⟨.nil, nofun⟩

theorem openGroup (h : b.Disciplined) : b.openGroup.Disciplined := by
  obtain ⟨hascending, hbounded⟩ := h
  have hheights : heights b.openGroup.pending = heights b.pending ++ [b.operands.length] :=
    heights_group ..
  constructor
  · rw [hheights]
    refine List.pairwise_append.2 ⟨hascending, List.pairwise_singleton .., fun n hn m hm => ?_⟩
    rw [List.mem_singleton.1 hm]
    exact hbounded n hn
  · rw [hheights]
    intro n hn
    obtain hn | hn := List.mem_append.1 hn
    · exact hbounded n hn
    · exact (List.mem_singleton.1 hn).le

/-- **One move** keeps the discipline: an operand that is taken off is above
    the innermost height, so above all of them. -/
theorem move (h : b.Disciplined) (hmove : Move b c) : c.Disciplined := by
  obtain ⟨hascending, hbounded⟩ := h
  cases hmove with
  | pushOperand e => exact ⟨hascending, fun n hn => (hbounded n hn).trans (Nat.le_succ _)⟩
  | popOperand hfloor => exact ⟨hascending, fun n hn => (le_floor hascending hn).trans hfloor⟩
  | pushOperator o => exact ⟨by simpa using hascending, by simpa using hbounded⟩
  | popOperator => exact ⟨by simpa using hascending, by simpa using hbounded⟩
  | closeGroup =>
    rw [heights_group] at hascending hbounded
    exact ⟨(List.pairwise_append.1 hascending).1, fun n hn => hbounded n (List.mem_append_left _ hn)⟩

end Disciplined

/-! ## What is before an open parenthesis -/

/-- The parenthesis that was opened in the state `c` is open in `d`, upon what
    waited then, and the operands from then are there below all others. -/
def Stands (c d : Build α) : Prop :=
  .group c.operands.length :: c.pending <:+ d.pending ∧ c.operands <:+ d.operands

theorem stands_openGroup (c : Build α) : c.Stands c.openGroup :=
  ⟨List.suffix_rfl, List.suffix_rfl⟩

/-- No move opens a parenthesis. -/
theorem Move.group_suffix (h : Move b c) (hc : .group n :: below <:+ c.pending) :
    .group n :: below <:+ b.pending := by
  cases h with
  | pushOperand | popOperand => exact hc
  | popOperator | closeGroup => exact hc.trans (List.suffix_cons ..)
  | pushOperator o =>
    obtain hc | hc := List.suffix_cons_iff.1 hc
    · cases hc
    · exact hc

/-- **One move** leaves alone what is before a parenthesis that stays open. -/
theorem Stands.move (h : c.Stands b) (hb : b.Disciplined) (hmove : Move b d)
    (hd : .group c.operands.length :: c.pending <:+ d.pending) : c.Stands d := by
  refine ⟨hd, ?_⟩
  obtain ⟨-, hes⟩ := h
  cases hmove with
  | pushOperand e => exact hes.trans (List.suffix_cons ..)
  | pushOperator | popOperator | closeGroup => exact hes
  | popOperand hfloor =>
    -- the operand that is taken off is none of those: as many are left without it
    have hheight := (le_floor hb.ascending (mem_heights_of_suffix hd)).trans hfloor
    obtain hes | hes := List.suffix_cons_iff.1 hes
    · have hlength := congrArg List.length hes
      rw [List.length_cons] at hlength
      omega
    · exact hes

/-! ## Histories -/

/-- Of the states that items have led through, the last ones are those since a
    parenthesis was opened that waits with its height upon what is below it.
    It was opened by one of the items, and it has been there ever since, and
    so have the operands from before it. -/
inductive OpenSince (symbol : σ → Except Error (Symbol α)) (items : List σ) :
    Nat → List Pending → List (Build α) → Prop
  | intro {before after : List σ} {i : σ} {c : Build α} {states : List (Build α)}
      (since : List (Build α)) :
      items = before ++ i :: after → symbol i = .ok .openParen →
      takeAll symbol empty before = .ok c → (∀ d ∈ since, c.Stands d) →
      states = trail symbol before ++ c.openGroup :: since →
      OpenSince symbol items c.operands.length c.pending states

variable {symbol : σ → Except Error (Symbol α)} {items : List σ} {passed states : List (Build α)}

namespace OpenSince

theorem concat_item (h : OpenSince symbol items n below states) (i : σ) :
    OpenSince symbol (items ++ [i]) n below states := by
  obtain ⟨_, rfl, hi, hc, hsince, rfl⟩ := h
  exact .intro _ (by rw [List.append_assoc]; rfl) hi hc hsince rfl

/-- One state more. -/
theorem concat_state (h : OpenSince symbol items n below (passed ++ [b]))
    (hd : ∀ c : Build α, c.operands.length = n → c.pending = below → c.Stands b → c.Stands d) :
    OpenSince symbol items n below (passed ++ [b] ++ [d]) := by
  obtain @⟨before, after, i, c, _, since, rfl, hi, hc, hsince, hstates⟩ := h
  have hb : c.Stands b := by
    have hlast := congrArg List.getLast? hstates
    rw [List.getLast?_concat, List.getLast?_append_cons] at hlast
    obtain rfl | hmem := List.mem_cons.1 (List.mem_of_getLast? hlast.symm)
    · exact stands_openGroup c
    · exact hsince b hmem
  refine .intro (since ++ [d]) rfl hi hc (fun e he => ?_) ?_
  · obtain he | he := List.mem_append.1 he
    · exact hsince e he
    · rw [List.mem_singleton.1 he]
      exact hd c rfl rfl hb
  · rw [hstates, List.append_assoc]
    rfl

end OpenSince

/-- What holds in the state `b`, which items have led to through others. -/
structure Kept (symbol : σ → Except Error (Symbol α)) (items : List σ) (passed : List (Build α))
    (b : Build α) : Prop where
  disciplined : b.Disciplined
  since : ∀ n below, .group n :: below <:+ b.pending →
    OpenSince symbol items n below (passed ++ [b])

namespace Kept

theorem empty : Kept symbol [] [] (empty : Build α) :=
  ⟨.empty, fun _ _ h => absurd (List.suffix_nil.1 h) nofun⟩

theorem concat_item (h : Kept symbol items passed b) (i : σ) :
    Kept symbol (items ++ [i]) passed b :=
  ⟨h.disciplined, fun n below hb => (h.since n below hb).concat_item i⟩

/-- **One move** leads on: what waits behind it was there before. -/
theorem move (h : Kept symbol items passed b) (hmove : Move b c) :
    Kept symbol items (passed ++ [b]) c := by
  refine ⟨h.disciplined.move hmove, fun n below hc => ?_⟩
  refine (h.since n below (hmove.group_suffix hc)).concat_state ?_
  rintro d rfl rfl hd
  exact hd.move h.disciplined hmove hc

/-- **An open parenthesis** is put upon all that was there. -/
theorem openParen {i : σ} (h : Kept symbol items passed b) (hi : symbol i = .ok .openParen)
    (hb : takeAll symbol Build.empty items = .ok b) (htrail : trail symbol items = passed ++ [b]) :
    Kept symbol (items ++ [i]) (passed ++ [b]) b.openGroup := by
  refine ⟨h.disciplined.openGroup, fun n below hgroup => ?_⟩
  obtain hnew | hold := List.suffix_cons_iff.1 hgroup
  · cases hnew
    exact .intro [] rfl hi hb nofun (by rw [htrail])
  · refine ((h.since n below hold).concat_item i).concat_state ?_
    rintro c rfl rfl hc
    exact ⟨hgroup, hc.2⟩

/-- Several moves. -/
theorem leads (h : Kept symbol items passed b) (hleads : Leads b states d) {before : List (Build α)}
    (hc : before ++ [c] <+: states) : Kept symbol items (passed ++ b :: before) c := by
  induction hleads generalizing passed before with
  | refl => exact absurd (List.prefix_nil.1 hc) (by simp)
  | @step b _ _ _ hmove _ ih =>
    rcases before with _ | ⟨x, before⟩
    · obtain ⟨rfl, -⟩ := List.cons_prefix_cons.1 hc
      exact h.move hmove
    · obtain ⟨rfl, hbehind⟩ := List.cons_prefix_cons.1 hc
      have hkept := ih (h.move hmove) hbehind
      rwa [List.append_assoc] at hkept

end Kept

/-- A state that is gone through in two lists of states is in the first one, or
    behind all of it. -/
theorem prefix_append_cases {xs ys : List (Build α)} (h : passed ++ [b] <+: xs ++ ys) :
    passed ++ [b] <+: xs ∨ ∃ before, passed = xs ++ before ∧ before ++ [b] <+: ys := by
  obtain ⟨rest, h⟩ := h
  rw [List.append_assoc] at h
  obtain ⟨behind, rfl, hbehind⟩ | ⟨before, rfl, hbefore⟩ := List.append_eq_append_iff.1 h
  · rcases behind with _ | ⟨c, behind⟩
    · exact .inr ⟨[], by rw [List.append_nil, List.append_nil], rest, hbehind⟩
    · obtain ⟨rfl, -⟩ := List.cons.inj hbehind
      exact .inl ⟨behind, List.append_assoc ..⟩
  · exact .inr ⟨before, rfl, rest, (List.append_assoc ..).trans hbefore.symm⟩

theorem eq_of_prefix_singleton (h : passed ++ [b] <+: [c]) : passed = [] ∧ b = c := by
  rcases passed with _ | ⟨x, passed⟩
  · exact ⟨rfl, (List.cons_prefix_cons.1 h).1⟩
  · have hnone := List.prefix_nil.1 (List.cons_prefix_cons.1 h).2
    exact absurd hnone (List.append_ne_nil_of_right_ne_nil _ nofun)

/-- **A trail.**  All of its states are reached with what was there before open
    parentheses untouched. -/
theorem kept_trail (h : passed ++ [b] <+: trail symbol items) : Kept symbol items passed b := by
  induction items using List.reverseRecOn generalizing passed b with
  | nil =>
    obtain ⟨rfl, rfl⟩ := eq_of_prefix_singleton h
    exact .empty
  | append_singleton items i ih =>
    rw [trail_concat] at h
    obtain hold | ⟨before, rfl, hnew⟩ := prefix_append_cases h
    · exact (ih hold).concat_item i
    · -- the states of the last item come behind the one that the others lead to
      obtain ⟨c, hc, hnew⟩ := Trail.exists_of_prefix hnew
      obtain ⟨s, hs, hnew⟩ := Trail.exists_of_prefix hnew
      obtain ⟨start, hstart⟩ := trail_eq_concat hc
      have hkept : Kept symbol items start c := ih (by rw [hstart])
      rw [hstart, List.append_assoc]
      by_cases hopen : s = .openParen
      · subst hopen
        obtain ⟨rfl, rfl⟩ := eq_of_prefix_singleton hnew
        exact hkept.openParen hs hc hstart
      · obtain ⟨d, hleads, -⟩ := goes_take c hopen
        exact (hkept.concat_item i).leads hleads hnew

/-- **What is before an open parenthesis is left alone.**  In every state that
    tokens lead through, push by push and up to where they may fail, the
    heights of the open parentheses do not decrease from bottom to top, and
    none is above the number of operands that are there.  Each of them is the
    number of operands that were there when a token opened the parenthesis,
    and these have been there since then.  So where a parenthesis is closed,
    its height is taken off a number that is no less, and where an operand is
    to be taken, the stack is not empty. -/
theorem groups_kept (ts : List Token) :
    (Trail.takeAll Token.symbol empty ts).outcome = takeAll Token.symbol empty ts ∧
    (∀ b, takeAll Token.symbol empty ts = .ok b →
      ∃ passed, trail Token.symbol ts = passed ++ [b]) ∧
    (∀ passed b, passed ++ [b] <+: trail Token.symbol ts →
      (heights b.pending).Pairwise (· ≤ ·) ∧
      (∀ n ∈ heights b.pending, n ≤ b.operands.length) ∧
      (∀ n below, .group n :: below <:+ b.pending →
        OpenSince Token.symbol ts n below (passed ++ [b])) ∧
      (∀ n below, b.pending = .group n :: below →
        ((b.operands.length - n : ℕ) : ℤ) = b.operands.length - n) ∧
      ∀ o, takeOperand o b.pending b.operands ≠ .error (.internal .operandLost)) ∧
    Formula.ofTokens ts ≠ .error (.internal .operandLost) := by
  refine ⟨Trail.outcome_takeAll .., fun b hb => trail_eq_concat hb, fun passed b h => ?_,
    fun h => ?_⟩
  · obtain ⟨⟨hascending, hbounded⟩, hsince⟩ := kept_trail h
    refine ⟨hascending, hbounded, hsince, fun n below hgroup => ?_, fun o h => ?_⟩
    · have hn : n ∈ heights b.pending := mem_heights_of_suffix (by rw [hgroup])
      exact Nat.cast_sub (hbounded n hn)
    · cases takeOperand_eq_error h
  · obtain h | h := (blames_of_ofTokens h).fault_eq <;> cases h

/-- Behind `x(y*(z-` the closing parenthesis fails: `-` takes `z`, and the
    operand before that is out of its reach. -/
theorem groups_kept_nested :
    let name (text : String) : Token := ⟨.var, text, 0, 1⟩
    let sign (o : Operator) : Token := ⟨.operator o, o.symbol.toString, 0, 1⟩
    let opening : Token := ⟨.openParen, "(", 0, 1⟩
    let inside := [name "x", opening, name "y", sign (.binary .mul), opening, name "z",
      sign (.binary .sub)]
    let ts := inside ++ [⟨.closeParen, ")", 0, 1⟩]
    let b : Build Operand := ⟨[.leaf (.var "y"), .leaf (.var "x")],
      [.group 2, .operator (.binary .mul), .group 1]⟩
    takeAll Token.symbol empty ts = .error (.lexical (.missingOperand (.binary .sub))) ∧
    (∃ passed c, trail Token.symbol inside = passed ++ [c] ∧ c.operands.length = 3) ∧
    ∃ passed, trail Token.symbol ts = passed ++ [b] ∧ [1, 2].Pairwise (· ≤ ·) ∧
      OpenSince Token.symbol ts 1 [] (passed ++ [b]) ∧ ((2 - 2 : ℕ) : ℤ) = 2 - 2 := by
  intro name sign opening inside ts b
  have hinside : takeAll Token.symbol empty inside = .ok _ := rfl
  have htrail : trail Token.symbol ts = (trail Token.symbol ts).dropLast ++ [b] := rfl
  obtain ⟨-, hlast, -⟩ := groups_kept inside
  obtain ⟨passed, hpassed⟩ := hlast _ hinside
  obtain ⟨-, -, hkept, -⟩ := groups_kept ts
  obtain ⟨hascending, -, hsince, hexact, -⟩ := hkept _ b (by rw [← htrail])
  have hbelow : [.group 1] <:+ b.pending := ⟨[.group 2, .operator (.binary .mul)], rfl⟩
  exact ⟨rfl, ⟨passed, _, hpassed, rfl⟩, _, htrail, hascending, hsince 1 [] hbelow, hexact 2 _ rfl⟩

end Build

end Reckon
