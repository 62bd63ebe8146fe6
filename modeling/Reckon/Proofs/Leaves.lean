/-
  Reckon — the operands of what is built.

  Applying an operator does not change the leaves of the operands that wait,
  taken together and in their order (`leaves_reduce`), and every operand read
  is one leaf more at the end (`leaves_take`).  So the leaves of what is built
  are the operands that were read (`leaves_build`), and what is built from a
  text can be written as a text again (`printable_of_parse`).
-/
import Reckon.Proofs.Numerals
import Reckon.Proofs.Spelling

namespace Reckon

namespace Build

variable {α : Type}

/-! ## Leaves -/

/-- The leaves of the operands that wait, in the order they were read. -/
def leaves (operands : List (Expr α)) : List α :=
  operands.reverse.flatMap Expr.leaves

theorem leaves_cons (e : Expr α) (es : List (Expr α)) : leaves (e :: es) = leaves es ++ e.leaves := by
  simp [leaves]

theorem leaves_reduce {o : Operator} {pending : List Pending} {es es' : List (Expr α)}
    (h : reduce o pending es = .ok es') : leaves es' = leaves es := by
  obtain ⟨e, rest, rfl, rfl, rfl, -⟩ | ⟨op, l, r, rest, rfl, rfl, rfl, -⟩ := reduce_eq_ok h
  · simp only [leaves_cons, Expr.leaves]
  · simp only [leaves_cons, Expr.leaves, List.append_assoc]

theorem Settles.leaves_eq {p : Nat} {b c : Build α} (h : Settles p b c) :
    leaves c.operands = leaves b.operands := by
  induction h with
  | refl => rfl
  | reduce _ hreduce _ ih => exact ih.trans (leaves_reduce hreduce)

end Build

open Build

variable {α : Type}

def Symbol.operand? : Symbol α → Option α
  | .operand a => some a
  | _ => none

theorem leaves_take {b c : Build α} {s : Symbol α} (h : b.take s = .ok c) :
    leaves c.operands = leaves b.operands ++ s.operand?.toList := by
  cases s with
  | operand a => cases h; exact leaves_cons _ _
  | operator o =>
    obtain ⟨d, hsettles, rfl⟩ := settles_of_shift h
    exact hsettles.leaves_eq.trans (List.append_nil _).symm
  | openParen => cases h; exact (List.append_nil _).symm
  | closeParen =>
    obtain ⟨height, -, hsettles⟩ := settles_of_closeGroup h
    exact hsettles.leaves_eq.trans (List.append_nil _).symm

theorem leaves_run {ss : List (Symbol α)} {b c : Build α} (h : run b ss = .ok c) :
    leaves c.operands = leaves b.operands ++ ss.filterMap Symbol.operand? := by
  induction ss generalizing b with
  | nil => cases h; exact (List.append_nil _).symm
  | cons s ss ih =>
    obtain ⟨d, hd, h⟩ := bind_eq_ok.1 h
    rw [ih h, leaves_take hd, List.append_assoc]
    cases s <;> rfl

/-- **The leaves of what is built are the operands**, in their order. -/
theorem leaves_build {ss : List (Symbol α)} {b : Build α} {e : Expr α}
    (hrun : run empty ss = .ok b) (hfinish : finish b.pending b.operands = .ok e) :
    e.leaves = ss.filterMap Symbol.operand? := by
  have hone : leaves [e] = leaves b.operands := (settles_of_finish hfinish).leaves_eq
  rw [leaves_run hrun] at hone
  simpa [leaves, empty] using hone

/-! ## Operands that can be written -/

/-- An operand that a formula can be written with: a number that is finite and
    has no sign, or a name of letters and digits. -/
def Operand.Printable : Operand → Prop
  | number x => ∃ m, x = .finite false m
  | var name => Pattern.name.Fits name.toList

/-- A formula that can be written. -/
def Formula.Printable (f : Formula) : Prop :=
  ∀ a ∈ f.leaves, a.Printable

theorem fits_of_mem_locate {ps : List Piece} (h : Munched ps) (start : Nat) :
    ∀ t ∈ locate start ps, t.lexeme.Fits := by
  induction h generalizing start with
  | nil => exact fun t ht => absurd ht List.not_mem_nil
  | lexeme hk hfits _ _ ih =>
    intro t ht
    rcases List.mem_cons.1 ht with rfl | ht
    · exact ⟨_, hk, hfits⟩
    · exact ih _ t ht
  | stray _ _ ih => exact ih _

theorem isOperand_after {previous : Option Kind} {k : Kind}
    (h : (k.after previous).isOperand = true) : k.after previous = k := by
  unfold Kind.after at h ⊢
  split at h
  · cases h
  · rename_i hk
    rw [if_neg hk]

/-- Telling the minus signs apart leaves the operands as they are. -/
theorem mem_of_mem_resolveMinusAfter {ts : List Token} {previous : Option Kind} {t : Token}
    (h : t ∈ resolveMinusAfter previous ts) (hop : t.kind.isOperand = true) : t ∈ ts := by
  induction ts generalizing previous with
  | nil => cases h
  | cons u ts ih =>
    rcases List.mem_cons.1 h with rfl | h
    · rw [show ({ u with kind := u.kind.after previous } : Token) = u by
        rw [isOperand_after hop]]
      exact List.mem_cons_self ..
    · exact List.mem_cons_of_mem _ (ih h)

theorem fits_of_tokenize {text : String} {ts : List Token} (h : tokenize text = .ok ts)
    {t : Token} (ht : t ∈ ts) (hop : t.kind.isOperand = true) : t.lexeme.Fits := by
  obtain ⟨raw, hscan, -, rfl⟩ := tokenize_eq_ok_iff.1 h
  obtain ⟨hmunched, -, rfl⟩ := lexemes_of_scan hscan
  exact fits_of_mem_locate hmunched 0 t (mem_of_mem_resolveMinusAfter ht hop)

theorem readNumber_eq_ok {text : String} {x : Binary64} (h : readNumber text = .ok x) :
    Binary64.read text = .ok x ∧ x.isFinite = true := by
  unfold readNumber at h
  split at h
  · cases h
  · rename_i y hread
    split at h <;> cases h
    exact ⟨hread, ‹_›⟩

/-- **A text that fits the pattern of numbers is read**, and is out of range at
    worst. -/
theorem readNumber_of_fits {text : String} (h : Pattern.decimal.Fits text.toList) :
    ∃ x, Binary64.read text = .ok x ∧
      readNumber text = if x.isFinite then .ok x else .error (.lexical (.numberOutOfRange text)) := by
  obtain ⟨d, -, hread⟩ := read_decimal h
  rw [String.ofList_toList] at hread
  exact ⟨_, hread, by rw [readNumber, hread]⟩

theorem Token.fits_of_pattern {t : Token} {p : Pattern} (hp : t.kind.pattern? = some p)
    (h : t.lexeme.Fits) : p.Fits t.text.toList := by
  obtain ⟨q, hq, hfits⟩ := h
  obtain rfl : p = q := Option.some.inj (hp.symm.trans hq)
  exact hfits

theorem printable_of_symbol {t : Token} {a : Operand} (hfits : t.kind.isOperand = true → t.lexeme.Fits)
    (h : t.symbol = .ok (.operand a)) : a.Printable := by
  unfold Token.symbol at h
  split at h
  · rename_i hk
    cases h
    exact Token.fits_of_pattern (p := .name) (by rw [hk]; rfl) (hfits (by rw [hk]; rfl))
  · rename_i hk
    obtain ⟨x, hx, h⟩ := bind_eq_ok.1 h
    cases h
    have hdigits := Token.fits_of_pattern (p := .decimal) (by rw [hk]; rfl) (hfits (by rw [hk]; rfl))
    obtain ⟨d, -, hdecimal⟩ := read_decimal hdigits
    obtain ⟨hread, hfinite⟩ := readNumber_eq_ok hx
    rw [String.ofList_toList, hread] at hdecimal
    obtain rfl := Except.ok.inj hdecimal
    unfold Binary64.ofDecimal at hfinite ⊢
    cases hm : d.nearest? with
    | none => rw [hm] at hfinite; cases hfinite
    | some m => exact ⟨m, rfl⟩
  all_goals cases h

theorem exists_of_forall₂ {β γ : Type} {R : β → γ → Prop} {xs : List β} {ys : List γ}
    (h : List.Forall₂ R xs ys) {y : γ} (hy : y ∈ ys) : ∃ x ∈ xs, R x y := by
  induction h with
  | nil => cases hy
  | cons hxy _ ih =>
    rcases List.mem_cons.1 hy with rfl | hy
    · exact ⟨_, List.mem_cons_self .., hxy⟩
    · obtain ⟨x, hx, hxy⟩ := ih hy
      exact ⟨x, List.mem_cons_of_mem _ hx, hxy⟩

theorem forall₂_append_left {β γ : Type} {R : β → γ → Prop} {xs ys : List β} {zs : List γ}
    (h : List.Forall₂ R (xs ++ ys) zs) :
    ∃ us vs, zs = us ++ vs ∧ List.Forall₂ R xs us ∧ List.Forall₂ R ys vs :=
  ⟨zs.take xs.length, zs.drop xs.length, (List.take_append_drop ..).symm,
    (List.forall₂_take_append _ _ _ h.flip).flip, (List.forall₂_drop_append _ _ _ h.flip).flip⟩

/-- **What is parsed can be written.** -/
theorem printable_of_parse {text : String} {f : Formula} (h : Formula.parse text = .ok f) :
    f.Printable := by
  obtain ⟨ts, htokens, ss, hss, b, hrun, hfinish⟩ := Formula.parse_eq_ok_iff.1 h
  intro a ha
  rw [leaves_build hrun hfinish] at ha
  obtain ⟨s, hs, hsa⟩ := List.mem_filterMap.1 ha
  obtain rfl : s = .operand a := by
    cases s <;> cases hsa
    rfl
  obtain ⟨t, ht, hts⟩ := exists_of_forall₂ hss hs
  exact printable_of_symbol (fits_of_tokenize htokens ht) hts

end Reckon
