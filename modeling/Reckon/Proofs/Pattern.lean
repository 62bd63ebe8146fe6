/-
  Reckon — the texts that fit a pattern.

  * `Pattern.Fits` is the language of a pattern; `Pattern.prolongs` tells
    which characters would make a match longer;
  * `matchLength_append`: a text that fits is matched as a whole, unless the
    character behind it prolongs it;
  * `Fits.starts_eq_false`: apart from the digits of names, no match of one
    kind begins inside a text of another kind.
-/
import Reckon.Token.Scan
import Mathlib

namespace Reckon

/-! ## Characters -/

theorem isDigit_eq_false_of_isAlpha {c : Char} (h : c.isAlpha = true) : c.isDigit = false := by
  simp only [Char.isAlpha, Char.isUpper, Char.isLower, Char.isDigit, Bool.or_eq_true,
    Bool.and_eq_true, decide_eq_true_eq, Bool.and_eq_false_iff, decide_eq_false_iff_not,
    UInt32.le_iff_toNat_le, ge_iff_le] at *
  simp only [Char.reduceVal, UInt32.reduceToNat] at *
  omega

theorem isAlphanum_of_isDigit {c : Char} (h : c.isDigit = true) : c.isAlphanum = true := by
  simp [Char.isAlphanum, h]

theorem isAlphanum_of_isAlpha {c : Char} (h : c.isAlpha = true) : c.isAlphanum = true := by
  simp [Char.isAlphanum, h]

theorem isAlpha_eq_false_of_isDigit {c : Char} (h : c.isDigit = true) : c.isAlpha = false := by
  by_contra hc
  rw [isDigit_eq_false_of_isAlpha (by simpa using hc)] at h
  cases h

theorem utf8Size_of_isAlphanum {c : Char} (h : c.isAlphanum = true) : c.utf8Size = 1 := by
  simp only [Char.isAlphanum, Char.isAlpha, Char.isUpper, Char.isLower, Char.isDigit,
    Bool.or_eq_true, Bool.and_eq_true, decide_eq_true_eq, UInt32.le_iff_toNat_le,
    ge_iff_le] at h
  simp only [Char.reduceVal, UInt32.reduceToNat] at h
  rw [Char.utf8Size_eq_one_iff, UInt32.le_iff_toNat_le]
  change c.val.toNat ≤ 127
  omega

/-! ## Runs of characters -/

variable {α : Type} {p : α → Bool}

theorem takeWhile_append_stop {xs ys : List α} (hx : ∀ x ∈ xs, p x = true)
    (hy : ∀ y ∈ ys.head?, p y = false) : (xs ++ ys).takeWhile p = xs := by
  rw [List.takeWhile_append_of_pos hx]
  cases ys with
  | nil => simp
  | cons y ys => simp [hy y rfl]

theorem dropWhile_append_stop {xs ys : List α} (hx : ∀ x ∈ xs, p x = true)
    (hy : ∀ y ∈ ys.head?, p y = false) : (xs ++ ys).dropWhile p = ys := by
  rw [List.dropWhile_append_of_pos hx]
  cases ys with
  | nil => rfl
  | cons y ys => simp [hy y rfl]

theorem head_dropWhile_eq_false {xs : List α} : ∀ y ∈ (xs.dropWhile p).head?, p y = false := by
  intro y hy
  have := List.head?_dropWhile_not p xs
  rw [Option.mem_def.1 hy] at this
  exact this

section First

variable [DecidableEq α] {a : α} {xs ys : List α}

/-- A list is cut where an element first occurs. -/
theorem takeWhile_ne_append (h : a ∉ xs) : (xs ++ a :: ys).takeWhile (· ≠ a) = xs :=
  takeWhile_append_stop (fun _ hx => decide_eq_true (ne_of_mem_of_not_mem hx h)) (by simp)

theorem dropWhile_ne_append (h : a ∉ xs) : (xs ++ a :: ys).dropWhile (· ≠ a) = a :: ys :=
  dropWhile_append_stop (fun _ hx => decide_eq_true (ne_of_mem_of_not_mem hx h)) (by simp)

theorem not_mem_takeWhile_ne : a ∉ xs.takeWhile (· ≠ a) := fun h => by
  simpa using List.mem_takeWhile_imp h

theorem append_of_dropWhile_ne {b : α} (h : xs.dropWhile (· ≠ a) = b :: ys) :
    xs = xs.takeWhile (· ≠ a) ++ a :: ys := by
  have hstop : ∀ y ∈ (xs.dropWhile (· ≠ a)).head?, decide (y ≠ a) = false := head_dropWhile_eq_false
  rw [h] at hstop
  obtain rfl : b = a := by simpa using hstop b rfl
  rw [← h, List.takeWhile_append_dropWhile]

theorem dropWhile_ne_eq_nil_iff : xs.dropWhile (· ≠ a) = [] ↔ a ∉ xs := by
  rw [List.dropWhile_eq_nil_iff]
  constructor
  · intro h ha
    simpa using h a ha
  · intro h x hx
    exact decide_eq_true (ne_of_mem_of_not_mem hx h)

end First

/-! ## The language of a pattern -/

namespace Pattern

/-- The texts that fit a pattern. -/
inductive Fits : Pattern → List Char → Prop
  | name {c : Char} {cs : List Char} :
      c.isAlpha = true → (∀ d ∈ cs, d.isAlphanum = true) → Fits name (c :: cs)
  | whole {ds : List Char} : ds ≠ [] → (∀ d ∈ ds, d.isDigit = true) → Fits decimal ds
  | fraction {ds es : List Char} : ds ≠ [] → (∀ d ∈ ds, d.isDigit = true) →
      (∀ d ∈ es, d.isDigit = true) → Fits decimal (ds ++ '.' :: es)
  | only (c : Char) : Fits (only c) [c]

/-- Whether a match can begin with a character. -/
def starts : Pattern → Char → Bool
  | name, c => c.isAlpha
  | decimal, c => c.isDigit
  | only d, c => c = d

/-- Whether a character behind a text that fits makes a longer match. -/
def prolongs : Pattern → List Char → Char → Bool
  | name, _, c => c.isAlphanum
  | decimal, cs, c => c.isDigit || (c = '.' && !cs.contains '.')
  | only _, _, _ => false

/-- Only letters, digits and points make matches longer. -/
theorem prolongs_of_not_alphanum {c : Char} (h : c.isAlphanum = false) (hpoint : c ≠ '.')
    (p : Pattern) (cs : List Char) : p.prolongs cs c = false := by
  cases p with
  | name => exact h
  | decimal =>
    simp only [Char.isAlphanum, Bool.or_eq_false_iff] at h
    simp [prolongs, h.2, hpoint]
  | only d => rfl

theorem Fits.ne_nil {p : Pattern} {cs : List Char} (h : p.Fits cs) : cs ≠ [] := by
  cases h with
  | name | only => exact List.cons_ne_nil _ _
  | whole hne | fraction hne => simp [hne]

theorem Fits.starts_head {p : Pattern} {cs : List Char} (h : p.Fits cs) :
    ∀ c ∈ cs.head?, p.starts c = true := by
  intro c hc
  cases h with
  | name hd => cases hc; exact hd
  | whole hne hd => exact hd c (List.mem_of_mem_head? hc)
  | @fraction ds es hne hd he =>
    cases ds with
    | nil => exact absurd rfl hne
    | cons d ds => cases hc; exact hd _ (List.mem_cons_self ..)
  | only d => cases hc; simp [starts]

theorem Fits.of_mem {p : Pattern} {cs : List Char} (h : p.Fits cs) {c : Char} (hc : c ∈ cs) :
    c.isAlphanum = true ∨ c = '.' ∨ p = .only c := by
  cases h with
  | name ha hcs =>
    rcases List.mem_cons.1 hc with rfl | hc
    · exact .inl (isAlphanum_of_isAlpha ha)
    · exact .inl (hcs c hc)
  | whole _ hds => exact .inl (isAlphanum_of_isDigit (hds c hc))
  | fraction _ hds hes =>
    rcases List.mem_append.1 hc with hc | hc
    · exact .inl (isAlphanum_of_isDigit (hds c hc))
    · rcases List.mem_cons.1 hc with rfl | hc
      · exact .inr (.inl rfl)
      · exact .inl (isAlphanum_of_isDigit (hes c hc))
  | only d => exact .inr (.inr (List.mem_singleton.1 hc ▸ rfl))

theorem matchLength_eq_zero {p : Pattern} {c : Char} (h : p.starts c = false)
    (cs : List Char) : p.matchLength (c :: cs) = 0 := by
  cases p with
  | name => simp only [starts] at h; simp [matchLength, h]
  | decimal => simp only [starts] at h; simp [matchLength, h]
  | only d => simp only [starts, decide_eq_false_iff_not] at h; simp [matchLength, h]

theorem not_isDigit_point : Char.isDigit '.' = false := by decide

theorem not_mem_point {ds : List Char} (h : ∀ d ∈ ds, d.isDigit = true) : '.' ∉ ds := fun hm =>
  absurd (h _ hm) (by decide)

/-- The characters of a fraction at the head of a text, its point included. -/
def fractionLength : List Char → Nat
  | '.' :: cs => (cs.takeWhile Char.isDigit).length + 1
  | _ => 0

/-- A number is a run of digits and the fraction behind it. -/
theorem matchLength_decimal {ds rest : List Char} (hne : ds ≠ [])
    (hd : ∀ d ∈ ds, d.isDigit = true) (hr : ∀ c ∈ rest.head?, c.isDigit = false) :
    decimal.matchLength (ds ++ rest) = ds.length + fractionLength rest := by
  have htake := takeWhile_append_stop hd hr
  cases ds with
  | nil => exact absurd rfl hne
  | cons d ds =>
    rw [List.cons_append] at htake ⊢
    simp only [matchLength, htake, List.length_cons, List.drop_succ_cons, List.drop_left]
    split
    · simp only [fractionLength]
      omega
    · rename_i hpoint
      rw [fractionLength]
      exact hpoint

/-- **A text that fits is matched as a whole**, and no more than it is, unless
    the character behind it prolongs it. -/
theorem matchLength_append {p : Pattern} {cs rest : List Char} (h : p.Fits cs)
    (hr : ∀ c ∈ rest.head?, p.prolongs cs c = false) :
    p.matchLength (cs ++ rest) = cs.length := by
  cases h with
  | name hc hcs =>
    simp only [prolongs] at hr
    simp [matchLength, hc, takeWhile_append_stop hcs hr]
  | whole hne hd =>
    have hp : '.' ∉ cs := not_mem_point hd
    simp only [prolongs, Bool.or_eq_false_iff, List.contains_eq_mem, hp, decide_false,
      Bool.not_false, Bool.and_true, decide_eq_false_iff_not] at hr
    rw [matchLength_decimal hne hd fun c hc => (hr c hc).1]
    unfold fractionLength
    split
    · exact absurd rfl (hr _ rfl).2
    · rfl
  | @fraction ds es hne hd he =>
    simp only [prolongs, Bool.or_eq_false_iff] at hr
    rw [List.append_assoc, matchLength_decimal hne hd
      (by intro c hc; cases hc; exact not_isDigit_point)]
    simp only [List.cons_append, fractionLength, takeWhile_append_stop he fun c hc => (hr c hc).1,
      List.length_append, List.length_cons]
  | only c => simp [matchLength]

/-- **The texts that fit** are those that are matched as a whole. -/
theorem fits_iff {p : Pattern} {cs : List Char} :
    p.Fits cs ↔ cs ≠ [] ∧ p.matchLength cs = cs.length := by
  constructor
  · intro h
    refine ⟨h.ne_nil, ?_⟩
    have hwhole : p.matchLength (cs ++ []) = cs.length := matchLength_append h nofun
    rwa [List.append_nil] at hwhole
  · rintro ⟨hne, hlen⟩
    obtain ⟨c, cs, rfl⟩ := List.exists_cons_of_ne_nil hne
    cases p with
    | name =>
      rw [matchLength] at hlen
      split at hlen
      · rename_i hc
        have htake := (List.takeWhile_prefix _).eq_of_length (Nat.succ.inj hlen)
        exact .name hc (List.takeWhile_eq_self_iff.1 htake)
      · cases hlen
    | decimal =>
      have hds : ∀ d ∈ (c :: cs).takeWhile Char.isDigit, d.isDigit = true :=
        fun d hd => List.mem_takeWhile_imp hd
      have hne : (c :: cs).takeWhile Char.isDigit ≠ [] := by
        intro hnil
        simp [matchLength, hnil] at hlen
      rw [← List.takeWhile_append_dropWhile (p := Char.isDigit) (l := c :: cs)] at hlen ⊢
      rw [matchLength_decimal hne hds head_dropWhile_eq_false, List.length_append] at hlen
      generalize (c :: cs).takeWhile Char.isDigit = ds at *
      generalize (c :: cs).dropWhile Char.isDigit = rest at *
      have hrest := Nat.add_left_cancel hlen
      unfold fractionLength at hrest
      split at hrest
      · have htake := (List.takeWhile_prefix _).eq_of_length (Nat.succ.inj hrest)
        exact .fraction hne hds (List.takeWhile_eq_self_iff.1 htake)
      · rw [List.eq_nil_of_length_eq_zero hrest.symm, List.append_nil]
        exact .whole hne hds
    | only d =>
      rw [matchLength] at hlen
      split at hlen
      · rename_i hc
        rw [hc, List.eq_nil_of_length_eq_zero (Nat.succ.inj hlen).symm]
        exact .only d
      · cases hlen

instance (p : Pattern) (cs : List Char) : Decidable (p.Fits cs) :=
  decidable_of_iff _ fits_iff.symm

end Pattern

/-! ## The patterns of the kinds -/

namespace Kind

theorem pattern_only {k : Kind} {c : Char} (h : k.pattern? = some (.only c)) :
    c.isAlphanum = false ∧ c ≠ '.' ∧ c ≠ blank ∧ c.utf8Size = 1 ∧ isAllowed c = true := by
  match k with
  | operator (.binary .add) | operator (.binary .sub) | operator (.binary .mul)
  | operator (.binary .div) | openParen | closeParen => cases h; decide

theorem pattern_injective {j k : Kind} {p : Pattern} (hj : j.pattern? = some p)
    (hk : k.pattern? = some p) : j = k := by
  rcases j with _ | _ | ⟨⟨_ | _ | _ | _⟩ | _⟩ | _ | _ <;> cases hj <;>
    rcases k with _ | _ | ⟨⟨_ | _ | _ | _⟩ | _⟩ | _ | _ <;> cases hk <;> rfl

end Kind

/-- **Matches do not overlap.**  No match of one kind begins inside a text of
    another kind, save for numbers, which begin inside names. -/
theorem Pattern.Fits.starts_eq_false {j k : Kind} {p q : Pattern} {cs : List Char}
    (h : p.Fits cs) (hj : j.pattern? = some p) (hk : k.pattern? = some q) (hne : j ≠ k)
    (hname : ¬ (p = .name ∧ q = .decimal)) : ∀ d ∈ cs, q.starts d = false := by
  intro d hd
  have hpq : p ≠ q := fun he => hne (Kind.pattern_injective hj (he ▸ hk))
  cases q with
  | name =>
    cases h with
    | name => exact absurd rfl hpq
    | whole _ hds => exact isAlpha_eq_false_of_isDigit (hds d hd)
    | fraction _ hds hes =>
      rcases List.mem_append.1 hd with hd | hd
      · exact isAlpha_eq_false_of_isDigit (hds d hd)
      · rcases List.mem_cons.1 hd with rfl | hd
        · decide
        · exact isAlpha_eq_false_of_isDigit (hes d hd)
    | only c =>
      have hc := (Kind.pattern_only hj).1
      rw [List.mem_singleton.1 hd]
      simp only [Char.isAlphanum, Bool.or_eq_false_iff] at hc
      exact hc.1
  | decimal =>
    cases h with
    | name => exact absurd ⟨rfl, rfl⟩ hname
    | whole | fraction => exact absurd rfl hpq
    | only c =>
      have hc := (Kind.pattern_only hj).1
      rw [List.mem_singleton.1 hd]
      simp only [Char.isAlphanum, Bool.or_eq_false_iff] at hc
      exact hc.2
  | only c =>
    obtain ⟨hal, hpt, -⟩ := Kind.pattern_only hk
    have hdc : d ≠ c := by
      rintro rfl
      rcases h.of_mem hd with hd | hd | hp
      · rw [hd] at hal; cases hal
      · exact hpt hd
      · exact hpq hp
    simp [Pattern.starts, hdc]

end Reckon
