/-
  Reckon — numbers and their texts.

  * `read?_whole`, `read?_fraction`: what digits and a point denote;
  * `read_decimal`: every text that fits the pattern of numbers is read, as
    the number nearest to a decimal;
  * `read?_chars`: a decimal is written as a text that fits and denotes the
    same number;
  * `read_text`: the text of a number without a sign is read back as it.
-/
import Reckon.Decimal.Reading
import Reckon.Proofs.Pattern
import Reckon.Proofs.Rounding

namespace Reckon

open Decimal

/-! ## Reading digits -/

theorem ofDigits_append (ds es : List Char) :
    ofDigits (ds ++ es) = Nat.ofDigitChars 10 es (ofDigits ds) :=
  Nat.ofDigitChars_append 0

theorem ofDigits_append_zeros (ds : List Char) (n : Nat) :
    ofDigits (ds ++ List.replicate n '0') = 10 ^ n * ofDigits ds := by
  rw [ofDigits_append, Nat.ofDigitChars_replicate_zero]

theorem ofDigits_zeros_append (n : Nat) (ds : List Char) :
    ofDigits (List.replicate n '0' ++ ds) = ofDigits ds := by
  rw [ofDigits_append, ofDigits, Nat.ofDigitChars_replicate_zero, Nat.mul_zero, ofDigits]

theorem ofDigits_toDigits (n : Nat) : ofDigits (Nat.toDigits 10 n) = n :=
  Nat.ofDigitChars_ten_toDigits

section Digits

variable {ds es : List Char} (hne : ds ≠ []) (hds : ∀ d ∈ ds, d.isDigit = true)
  (hes : ∀ d ∈ es, d.isDigit = true)
include hne hds

theorem read?_whole : read? ds = some ⟨ofDigits ds, 0⟩ := by
  have htake := List.takeWhile_eq_self_iff.2 hds
  have hdrop := List.dropWhile_eq_nil_iff.2 hds
  simp [read?, htake, hdrop, splitFraction, hne, readExponent?]

include hes in
theorem read?_fraction :
    read? (ds ++ '.' :: es) = some ⟨ofDigits (ds ++ es), -(es.length : Int)⟩ := by
  have hpoint : ∀ c ∈ ('.' :: es).head?, c.isDigit = false := by
    intro c hc
    cases hc
    decide
  have htake := List.takeWhile_eq_self_iff.2 hes
  have hdrop := List.dropWhile_eq_nil_iff.2 hes
  simp [read?, takeWhile_append_stop hds hpoint, dropWhile_append_stop hds hpoint, splitFraction,
    htake, hdrop, hne, readExponent?]

end Digits

/-! ## Texts that fit -/

theorem toLower_of_isDigit {c : Char} (h : c.isDigit = true) : c.toLower = c := by
  have hupper : ¬ (c.val ≥ 'A'.val ∧ c.val ≤ 'Z'.val) := by
    rintro ⟨hA, -⟩
    simp only [Char.isDigit, Bool.and_eq_true, decide_eq_true_eq] at h
    exact absurd (UInt32.le_trans hA h.2) (by decide)
  rw [Char.toLower, dif_neg hupper]

/-- **A text that fits the pattern of numbers denotes a number.** -/
theorem read_decimal {cs : List Char} (h : Pattern.decimal.Fits cs) :
    ∃ d, read? cs = some d ∧ Binary64.read (String.ofList cs) = .ok (.ofDecimal false d) := by
  obtain ⟨d, hd⟩ : ∃ d, read? cs = some d := by
    cases h with
    | whole hne hds => exact ⟨_, read?_whole hne hds⟩
    | fraction hne hds hes => exact ⟨_, read?_fraction hne hds hes⟩
  refine ⟨d, hd, ?_⟩
  obtain ⟨c, rest, rfl⟩ := List.exists_cons_of_ne_nil h.ne_nil
  have hc : c.isDigit = true := h.starts_head c rfl
  have hsign : splitSign (c :: rest) = (false, c :: rest) := by
    unfold splitSign
    split
    · rename_i heq
      cases heq
      cases hc
    · rename_i heq
      cases heq
      cases hc
    · rfl
  have hword (d : Char) (ds : List Char) (hd : d.isDigit = false) :
      (c :: rest).map Char.toLower ≠ d :: ds := by
    intro heq
    rw [List.map_cons, toLower_of_isDigit hc] at heq
    rw [(List.cons.inj heq).1, hd] at hc
    cases hc
  have hread : Binary64.readUnsigned? false (c :: rest) = some (.ofDecimal false d) := by
    have hnan : (c :: rest).map Char.toLower ≠ "nan".toList := hword 'n' ['a', 'n'] (by decide)
    have hinf : (c :: rest).map Char.toLower ≠ "inf".toList := hword 'i' ['n', 'f'] (by decide)
    have hinfinity : (c :: rest).map Char.toLower ≠ "infinity".toList :=
      hword 'i' ['n', 'f', 'i', 'n', 'i', 't', 'y'] (by decide)
    simp only [Binary64.readUnsigned?, hnan, hinf, hinfinity, if_false, or_self, hd, Option.map_some]
  rw [Binary64.read, String.toList_ofList, hsign]
  simp only [hread]

/-! ## Writing -/

theorem isDigit_zero : Char.isDigit '0' = true := by decide

theorem isDigit_of_mem_replicate {n : Nat} : ∀ d ∈ List.replicate n '0', d.isDigit = true :=
  fun d hd => by rw [List.eq_of_mem_replicate hd, isDigit_zero]

theorem dropFinalZeros_append (cs : List Char) :
    ∃ n, cs = dropFinalZeros cs ++ List.replicate n '0' := by
  refine ⟨(cs.reverse.takeWhile (· == '0')).length, ?_⟩
  have hzeros : (cs.reverse.takeWhile (· == '0')).reverse =
      List.replicate (cs.reverse.takeWhile (· == '0')).length '0' := by
    refine List.eq_replicate_iff.2 ⟨List.length_reverse, fun c hc => ?_⟩
    have := List.mem_takeWhile_imp (List.mem_reverse.1 hc)
    simpa using this
  rw [← hzeros, dropFinalZeros, ← List.reverse_append, List.takeWhile_append_dropWhile,
    List.reverse_reverse]

/-- The digits of a decimal below 10, with zeros before them, in two parts. -/
theorem exists_split (c e : Nat) :
    ∃ whole fraction, whole ≠ [] ∧ fraction.length = e + 1 ∧
      (∀ d ∈ whole, d.isDigit = true) ∧ (∀ d ∈ fraction, d.isDigit = true) ∧
      ofDigits (whole ++ fraction) = c ∧
      chars ⟨c, .negSucc e⟩ = match dropFinalZeros fraction with
        | [] => whole
        | ds => whole ++ '.' :: ds := by
  let digits := Nat.toDigits 10 c
  let padded := List.replicate (e + 2 - digits.length) '0' ++ digits
  have hlen : e + 2 ≤ padded.length := by
    simp only [padded, List.length_append, List.length_replicate]
    omega
  have hdigits : ∀ d ∈ padded, d.isDigit = true := by
    intro d hd
    rcases List.mem_append.1 hd with hd | hd
    · exact isDigit_of_mem_replicate d hd
    · exact Nat.isDigit_of_mem_toDigits (by decide) (by decide) hd
  have hvalue : ofDigits padded = c := by
    rw [ofDigits_zeros_append, ofDigits_toDigits]
  refine ⟨padded.take (padded.length - (e + 1)), padded.drop (padded.length - (e + 1)),
    ?_, ?_, fun d hd => hdigits d (List.mem_of_mem_take hd),
    fun d hd => hdigits d (List.mem_of_mem_drop hd), ?_, ?_⟩
  · rw [← List.length_pos_iff, List.length_take]
    omega
  · rw [List.length_drop]
    omega
  · rw [List.take_append_drop, hvalue]
  · unfold chars
    simp only [List.splitAt_eq]
    rfl

theorem read?_chars_ofNat (c e : Nat) :
    Pattern.decimal.Fits (chars ⟨c, .ofNat e⟩) ∧
      ∃ d, read? (chars ⟨c, .ofNat e⟩) = some d ∧ d.SameValue ⟨c, .ofNat e⟩ := by
  have hdigits : ∀ d ∈ Nat.toDigits 10 c, d.isDigit = true :=
    fun d hd => Nat.isDigit_of_mem_toDigits (by decide) (by decide) hd
  by_cases hc : c = 0
  · have hchars : chars ⟨c, .ofNat e⟩ = Nat.toDigits 10 c := by
      unfold chars
      simp only [hc, if_true]
    rw [hchars]
    refine ⟨.whole Nat.toDigits_ne_nil hdigits, _, read?_whole Nat.toDigits_ne_nil hdigits, ?_⟩
    rw [ofDigits_toDigits, hc]
    simp [SameValue, numerator]
  · have hchars : chars ⟨c, .ofNat e⟩ = Nat.toDigits 10 c ++ List.replicate e '0' := by
      unfold chars
      simp only [hc, if_false]
    have hne : Nat.toDigits 10 c ++ List.replicate e '0' ≠ [] := by
      simp [Nat.toDigits_ne_nil]
    have hall : ∀ d ∈ Nat.toDigits 10 c ++ List.replicate e '0', d.isDigit = true := by
      intro d hd
      rcases List.mem_append.1 hd with hd | hd
      · exact hdigits d hd
      · exact isDigit_of_mem_replicate d hd
    rw [hchars]
    refine ⟨.whole hne hall, _, read?_whole hne hall, ?_⟩
    rw [ofDigits_append_zeros, ofDigits_toDigits]
    simp [SameValue, numerator, denominator, Nat.mul_comm]

theorem read?_chars_negSucc (c e : Nat) :
    Pattern.decimal.Fits (chars ⟨c, .negSucc e⟩) ∧
      ∃ d, read? (chars ⟨c, .negSucc e⟩) = some d ∧ d.SameValue ⟨c, .negSucc e⟩ := by
  obtain ⟨whole, fraction, hne, hlen, hwhole, hfraction, hvalue, hchars⟩ := exists_split c e
  obtain ⟨n, hn⟩ := dropFinalZeros_append fraction
  rw [hchars]
  -- the zeros that are dropped are a power of ten in the coefficient
  have hcoefficient : c = 10 ^ n * ofDigits (whole ++ dropFinalZeros fraction) := by
    rw [← ofDigits_append_zeros, List.append_assoc, ← hn, hvalue]
  have hplaces : (dropFinalZeros fraction).length + n = e + 1 := by
    have := congrArg List.length hn
    rw [List.length_append, List.length_replicate] at this
    omega
  have hden : denominator ⟨c, .negSucc e⟩ = 10 ^ (e + 1) := rfl
  have hnum : numerator ⟨c, .negSucc e⟩ = c := Nat.mul_one c
  have hkept : ∀ d ∈ dropFinalZeros fraction, d.isDigit = true :=
    fun d hd => hfraction d (hn ▸ List.mem_append_left _ hd)
  generalize dropFinalZeros fraction = kept at hcoefficient hplaces hkept
  cases kept with
  | nil =>
    refine ⟨.whole hne hwhole, _, read?_whole hne hwhole, ?_⟩
    rw [SameValue, hden, hnum, hcoefficient, ← hplaces]
    simp [numerator, denominator, Nat.mul_comm]
  | cons k ks =>
    refine ⟨.fraction hne hwhole hkept, _, read?_fraction hne hwhole hkept, ?_⟩
    rw [SameValue, hden, hnum, hcoefficient, ← hplaces]
    simp only [numerator, denominator, neg_neg, Int.toNat_natCast, Int.toNat_neg_natCast,
      Nat.pow_zero, Nat.mul_one, Nat.pow_add]
    ring

/-- **A decimal is written as what denotes the same number.** -/
theorem read?_chars (d : Decimal) :
    Pattern.decimal.Fits d.chars ∧ ∃ d', read? d.chars = some d' ∧ d'.SameValue d := by
  obtain ⟨c, e⟩ := d
  cases e with
  | ofNat e => exact read?_chars_ofNat c e
  | negSucc e => exact read?_chars_negSucc c e

/-! ## The text of a number -/

theorem text_finite (m : Magnitude) :
    (Binary64.finite false m).text = String.ofList m.shortest.chars := by
  simp only [Binary64.text, Bool.false_eq_true, if_false]

theorem fits_text (m : Magnitude) :
    Pattern.decimal.Fits (Binary64.finite false m).text.toList := by
  rw [text_finite, String.toList_ofList]
  exact (read?_chars m.shortest).1

/-- **The text of a number is read back as it.** -/
theorem read_text (m : Magnitude) :
    Binary64.read (Binary64.finite false m).text = .ok (.finite false m) := by
  obtain ⟨hfits, d, hd, hsame⟩ := read?_chars m.shortest
  obtain ⟨d', hd', hread⟩ := read_decimal hfits
  obtain rfl : d = d' := Option.some.inj (hd.symm.trans hd')
  have hnearest : d.nearest? = some m := hsame.nearest?_eq.trans m.nearest?_shortest
  rw [text_finite, hread, Binary64.ofDecimal, hnearest]

end Reckon
