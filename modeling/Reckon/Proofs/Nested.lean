/-
  Reckon — parentheses in pairs.

  `Nested` is the grammar `B ::= empty | x B | (B) B` of lists in which every
  parenthesis has its partner, whatever the parentheses and the other items
  are: characters of a text, or kinds of tokens.

  * `Nested.foldl_nesting`: kinds in pairs leave the nesting as it is;
  * `Nested.filterMap`: pairs stay pairs when other items are left out.
-/
import Reckon.Proofs.Balance

namespace Reckon

/-- Lists in which each `opening` has a `closing` behind it, and the other way
    round, with such a list between them. -/
inductive Nested {β : Type} (opening closing : β) : List β → Prop
  | nil : Nested opening closing []
  | other {x : β} {xs : List β} : x ≠ opening → x ≠ closing → Nested opening closing xs →
      Nested opening closing (x :: xs)
  | group {xs ys : List β} : Nested opening closing xs → Nested opening closing ys →
      Nested opening closing (opening :: (xs ++ closing :: ys))

namespace Nested

theorem step_other {k : Kind} (hopen : k ≠ .openParen) (hclose : k ≠ .closeParen) (n : Nesting) :
    n.step k = n := by
  cases k with
  | var | number | operator => rfl
  | openParen => exact absurd rfl hopen
  | closeParen => exact absurd rfl hclose

/-- **Pairs of parentheses leave the nesting as it is.** -/
theorem foldl_nesting {ks : List Kind} (h : Nested .openParen .closeParen ks) {n : Nesting}
    (hn : n.Honest) : ks.foldl Nesting.step n = n := by
  induction h generalizing n with
  | nil => rfl
  | other hopen hclose _ ih => rw [List.foldl_cons, step_other hopen hclose, ih hn]
  | @group xs ys _ _ ihx ihy =>
    have hinside : nesting xs = ⟨0, false⟩ := ihx (.inl le_rfl)
    have hsplit : Kind.openParen :: (xs ++ .closeParen :: ys) =
        .openParen :: (xs ++ [.closeParen]) ++ ys := by simp
    rw [hsplit, List.foldl_append, foldl_nesting_group hinside hn, ihy hn]

theorem nesting_eq {ks : List Kind} (h : Nested .openParen .closeParen ks) :
    nesting ks = ⟨0, false⟩ :=
  h.foldl_nesting (.inl le_rfl)

/-- Pairs stay pairs if nothing else becomes a parenthesis. -/
theorem filterMap {β γ : Type} {opening closing : β} {opening' closing' : γ} {f : β → Option γ}
    (hopen : f opening = some opening') (hclose : f closing = some closing')
    (hother : ∀ x, x ≠ opening → x ≠ closing → f x ≠ some opening' ∧ f x ≠ some closing')
    {xs : List β} (h : Nested opening closing xs) :
    Nested opening' closing' (xs.filterMap f) := by
  induction h with
  | nil => exact .nil
  | @other x xs hxo hxc _ ih =>
    obtain ⟨hnotopen, hnotclose⟩ := hother x hxo hxc
    cases hx : f x with
    | none => rwa [List.filterMap_cons_none hx]
    | some y =>
      rw [hx] at hnotopen hnotclose
      rw [List.filterMap_cons_some hx]
      exact .other (fun h => hnotopen (congrArg _ h)) (fun h => hnotclose (congrArg _ h)) ih
  | group _ _ ihx ihy =>
    rw [List.filterMap_cons_some hopen, List.filterMap_append, List.filterMap_cons_some hclose]
    exact .group ihx ihy

end Nested

end Reckon
