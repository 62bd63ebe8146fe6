/-
  Reckon — the grammar of formulas, by the kinds of their tokens.

  * `Derives` is the grammar `E ::= operand | (E) | -E | E op E`;
  * a derivable list is in balance (`Derives.balanced`), and no operand
    is directly behind another one (`Derives.apart`);
  * `Told`: a minus is unary just where no operand ends before it.  That is
    so in derivable lists (`Derives.told`) and behind `resolveMinus`
    (`told_resolveMinusAfter`), which therefore gives the derivable list back
    (`map_lexeme_resolveMinus`);
  * `resolveMinusAfter_append`: what is behind a list is told apart by its last
    token as it was (`kindBefore`).
-/
import Reckon.Token.Minus
import Reckon.Proofs.Balance
import Reckon.Proofs.Munch

namespace Reckon

/-! ## Derivations -/

/-- The lists of kinds that are formulas. -/
inductive Derives : List Kind → Prop
  | var : Derives [.var]
  | number : Derives [.number]
  | group {w : List Kind} : Derives w → Derives (.openParen :: (w ++ [.closeParen]))
  | negate {w : List Kind} : Derives w → Derives (.operator .negate :: w)
  | binary {v w : List Kind} (op : BinaryOp) : Derives v → Derives w →
      Derives (v ++ .operator (.binary op) :: w)

/-! ## Balance -/

/-- **Formulas are in balance.** -/
theorem Derives.balanced {w : List Kind} (h : Derives w) : Balanced w := by
  induction h with
  | var | number => exact ⟨rfl, rfl⟩
  | group _ ih => exact ih.group
  | negate _ ih => exact ih.negate
  | binary op _ _ ihv ihw => exact ihv.binary op ihw

/-! ## Operands apart -/

/-- Whether an operand that is not negated can begin with a token of this kind. -/
def Kind.startsOperand : Kind → Bool
  | var | number | openParen => true
  | _ => false

/-- Whether two kinds may be neighbours: no operand begins where another one
    ends. -/
def Kind.Apart (j k : Kind) : Prop :=
  ¬ (j.endsOperand = true ∧ k.startsOperand = true)

instance (j k : Kind) : Decidable (j.Apart k) := inferInstanceAs (Decidable (¬ _))

theorem Kind.Apart.of_ends {j : Kind} (h : j.endsOperand = false) (k : Kind) : j.Apart k :=
  fun hjk => Bool.false_ne_true (h.symm.trans hjk.1)

theorem Kind.Apart.of_starts {k : Kind} (h : k.startsOperand = false) (j : Kind) : j.Apart k :=
  fun hjk => Bool.false_ne_true (h.symm.trans hjk.2)

/-- **Operands in a formula have an operator between them.** -/
theorem Derives.apart {w : List Kind} (h : Derives w) : w.IsChain Kind.Apart := by
  induction h with
  | var | number => exact .singleton _
  | group _ ih =>
    refine List.isChain_cons.2
      ⟨fun k _ => .of_ends rfl k, List.isChain_append.2 ⟨ih, .singleton _, ?_⟩⟩
    intro j _ k hk
    cases hk
    exact .of_starts rfl j
  | negate _ ih => exact List.isChain_cons.2 ⟨fun k _ => .of_ends rfl k, ih⟩
  | binary op _ _ ihv ihw =>
    refine List.isChain_append.2
      ⟨ihv, List.isChain_cons.2 ⟨fun k _ => .of_ends rfl k, ihw⟩, ?_⟩
    intro j _ k hk
    cases hk
    exact .of_starts rfl j

/-! ## Minus signs -/

/-- A kind as it is scanned, where every minus is binary. -/
def Kind.raw : Kind → Kind
  | operator .negate => operator (.binary .sub)
  | k => k

/-- Whether each minus behind a token of the kind `previous` is unary if no
    operand ends before it, and binary otherwise. -/
def Told : Option Kind → List Kind → Prop
  | _, [] => True
  | previous, k :: ks => k.raw.after previous = k ∧ Told (some k) ks

/-- What is before a minus matters only in so far as an operand ends there. -/
theorem Told.congr {p q : Option Kind} (h : p.any Kind.endsOperand = q.any Kind.endsOperand)
    {ks : List Kind} (hks : Told p ks) : Told q ks := by
  cases ks with
  | nil => trivial
  | cons k ks =>
    obtain ⟨hk, hks⟩ := hks
    rw [Kind.after, h] at hk
    exact ⟨hk, hks⟩

theorem Told.append {previous : Option Kind} {v w : List Kind} (hv : Told previous v)
    (hw : ∀ q, Told q w) : Told previous (v ++ w) := by
  induction v generalizing previous with
  | nil => exact hw _
  | cons k v ih => exact ⟨hv.1, ih hv.2⟩

/-- A formula in front of minus signs that are told apart behind an operand. -/
theorem Derives.told_append {w rest : List Kind} (h : Derives w) {previous : Option Kind}
    (hprevious : previous.any Kind.endsOperand = false)
    (hrest : ∀ k : Kind, k.endsOperand = true → Told (some k) rest) :
    Told previous (w ++ rest) := by
  induction h generalizing previous rest with
  | var | number => exact ⟨rfl, hrest _ rfl⟩
  | group _ ih =>
    rw [List.cons_append, List.append_assoc]
    exact ⟨rfl, ih rfl fun k _ => ⟨rfl, hrest _ rfl⟩⟩
  | negate _ ih =>
    refine ⟨?_, ih rfl hrest⟩
    simp only [Kind.raw, Kind.after, hprevious]
    rfl
  | binary op _ _ ihv ihw =>
    rw [List.append_assoc]
    refine ihv hprevious fun k hk => ⟨?_, ihw rfl hrest⟩
    rw [Kind.raw, Kind.after, Option.any_some, hk, if_neg fun h => Bool.false_ne_true h.2]
    exact fun h => Operator.noConfusion (Kind.operator.inj h)

/-- **In a formula the minus signs are told apart by what is before them.** -/
theorem Derives.told {w : List Kind} (h : Derives w) : Told none w := by
  have htold : Told none (w ++ []) := h.told_append rfl fun _ _ => trivial
  rwa [List.append_nil] at htold

/-- A token apart from its place. -/
def Token.lexeme (t : Token) : Lexeme :=
  ⟨t.kind, t.text⟩

/-- A lexeme as it is scanned. -/
def Lexeme.raw (l : Lexeme) : Lexeme :=
  { l with kind := l.kind.raw }

theorem map_lexeme_resolveMinusAfter {ts : List Token} {ls : List Lexeme}
    {previous : Option Kind} (htold : Told previous (ls.map Lexeme.kind))
    (h : ts.map Token.lexeme = ls.map Lexeme.raw) :
    (resolveMinusAfter previous ts).map Token.lexeme = ls := by
  induction ts generalizing previous ls with
  | nil =>
    obtain rfl := List.map_eq_nil_iff.1 h.symm
    rfl
  | cons t ts ih =>
    cases ls with
    | nil => cases h
    | cons l ls =>
      obtain ⟨ht, hts⟩ := List.cons.inj h
      obtain ⟨hkind, hrest⟩ := htold
      have hk : t.kind.after previous = l.kind := by
        have : t.kind = l.kind.raw := congrArg Lexeme.kind ht
        rw [this, hkind]
      have htext : t.text = l.text := congrArg Lexeme.text ht
      simp only [resolveMinusAfter, hk, List.map_cons, ih hrest hts]
      simp only [Token.lexeme, htext]

/-- **Resolving the minus signs of a scanned formula gives it back.** -/
theorem map_lexeme_resolveMinus {ts : List Token} {ls : List Lexeme}
    (hls : Derives (ls.map Lexeme.kind)) (h : ts.map Token.lexeme = ls.map Lexeme.raw) :
    (resolveMinus ts).map Token.lexeme = ls :=
  map_lexeme_resolveMinusAfter hls.told h

/-- What is the same for both minus signs is the same when they are told apart. -/
theorem Kind.apply_after {β : Type} (f : Kind → β)
    (h : f (.operator .negate) = f (.operator (.binary .sub))) (k : Kind)
    (previous : Option Kind) : f (k.after previous) = f k := by
  unfold Kind.after
  split
  · rename_i hk
    rw [hk.1, h]
  · rfl

/-- Telling a minus apart does not make it another token. -/
theorem Kind.raw_after {k : Kind} (h : k ≠ .operator .negate) (previous : Option Kind) :
    (k.after previous).raw = k := by
  rw [Kind.apply_after Kind.raw rfl]
  unfold Kind.raw
  split
  · exact absurd rfl h
  · rfl

/-- Where every minus was binary, the minus signs are told apart afterwards. -/
theorem told_resolveMinusAfter {ts : List Token} (h : ∀ t ∈ ts, t.kind ≠ .operator .negate)
    (previous : Option Kind) :
    Told previous ((resolveMinusAfter previous ts).map Token.kind) := by
  induction ts generalizing previous with
  | nil => trivial
  | cons t ts ih =>
    refine ⟨?_, ih (fun u hu => h u (List.mem_cons_of_mem _ hu)) _⟩
    rw [Kind.raw_after (h t (List.mem_cons_self ..))]

/-- Where every minus was binary, the tokens are told apart and are the same. -/
theorem map_raw_resolveMinusAfter {ts : List Token} (h : ∀ t ∈ ts, t.kind ≠ .operator .negate)
    (previous : Option Kind) :
    ((resolveMinusAfter previous ts).map Token.lexeme).map Lexeme.raw = ts.map Token.lexeme := by
  induction ts generalizing previous with
  | nil => rfl
  | cons t ts ih =>
    simp only [resolveMinusAfter, List.map_cons, Lexeme.raw, Token.lexeme,
      Kind.raw_after (h t (List.mem_cons_self ..))]
    exact congrArg _ (ih (fun u hu => h u (List.mem_cons_of_mem _ hu)) _)

/-- Lexemes are told apart by what is before them, and not by their places. -/
theorem map_lexeme_resolveMinusAfter_congr {p q : Option Kind} {ts us : List Token}
    (hpq : p.any Kind.endsOperand = q.any Kind.endsOperand)
    (h : ts.map Token.lexeme = us.map Token.lexeme) :
    (resolveMinusAfter p ts).map Token.lexeme = (resolveMinusAfter q us).map Token.lexeme := by
  induction ts generalizing p q us with
  | nil =>
    obtain rfl := List.map_eq_nil_iff.1 h.symm
    rfl
  | cons t ts ih =>
    cases us with
    | nil => cases h
    | cons u us =>
      obtain ⟨htu, hrest⟩ := List.cons.inj h
      obtain ⟨hkind, htext⟩ := Lexeme.mk.inj htu
      have hafter : t.kind.after p = u.kind.after q := by
        rw [Kind.after, Kind.after, hkind, hpq]
      simp only [resolveMinusAfter, List.map_cons, Token.lexeme, htext, hafter]
      exact congrArg _ (ih rfl hrest)

/-- Tokens too are told apart by whether an operand ends before them. -/
theorem resolveMinusAfter_congr {p q : Option Kind}
    (h : p.any Kind.endsOperand = q.any Kind.endsOperand) (ts : List Token) :
    resolveMinusAfter p ts = resolveMinusAfter q ts := by
  cases ts with
  | nil => rfl
  | cons t ts => rw [resolveMinusAfter, resolveMinusAfter, Kind.after, Kind.after, h]

/-- So it is all the same that a minus was resolved when the next is. -/
theorem resolveMinusAfter_cons (previous : Option Kind) (t : Token) (ts : List Token) :
    resolveMinusAfter previous (t :: ts) =
      { t with kind := t.kind.after previous } :: resolveMinusAfter (some t.kind) ts := by
  have hends : (some (t.kind.after previous)).any Kind.endsOperand =
      (some t.kind).any Kind.endsOperand := Kind.apply_after Kind.endsOperand rfl t.kind previous
  rw [resolveMinusAfter, resolveMinusAfter_congr hends]

/-- The kind of the token before the place `i`, if `previous` is that of the
    one before all of them. -/
def kindBefore (previous : Option Kind) (ts : List Token) : Nat → Option Kind
  | 0 => previous
  | i + 1 => ts[i]?.map Token.kind

theorem kindBefore_cons (previous : Option Kind) (t : Token) (ts : List Token) (i : Nat) :
    kindBefore previous (t :: ts) (i + 1) = kindBefore (some t.kind) ts i := by
  cases i <;> rfl

theorem resolveMinusAfter_append (previous : Option Kind) (ts us : List Token) :
    resolveMinusAfter previous (ts ++ us) =
      resolveMinusAfter previous ts ++ resolveMinusAfter (kindBefore previous ts ts.length) us := by
  induction ts generalizing previous with
  | nil => rfl
  | cons t ts ih =>
    rw [List.cons_append, resolveMinusAfter_cons, resolveMinusAfter_cons, ih, List.length_cons,
      kindBefore_cons, List.cons_append]

theorem resolveMinusAfter_paren (previous : Option Kind) {t : Token}
    (ht : t.kind = .openParen ∨ t.kind = .closeParen) (ts : List Token) :
    resolveMinusAfter previous (t :: ts) = t :: resolveMinusAfter (some t.kind) ts := by
  have hkind : t.kind.after previous = t.kind := by
    rcases ht with ht | ht <;> rw [ht] <;> rfl
  rw [resolveMinusAfter, hkind]

end Reckon
