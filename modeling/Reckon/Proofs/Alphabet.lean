/-
  Reckon — characters that no formula has.

  A text with such characters is turned down for them before anything else is
  looked at, wherever it is read: by scanning, by cutting it into tokens, by
  parsing, and by a cache in any state.

  * `FirstMet`: the items of a list of which something holds, each once, in the
    order in which they are first met.  One item more at the end is met anew or
    changes nothing (`FirstMet.concat_new`, `FirstMet.concat_old`), and so this
    is what erasing duplicates leaves (`firstMet_eraseDups`);
  * `TurnsDown`: an outcome is an error of the alphabet just when the alphabet
    is left, and names all characters outside of it.  Later stages, which know
    no such error, keep this (`TurnsDown.bind`);
  * `Cache.alphabet_first` puts this together for all that read a text.
-/
import Reckon.Proofs.Agreement
import Reckon.Proofs.Contents

namespace Reckon

/-! ## The alphabet -/

/-- The characters that no formula has: all but the ASCII letters, the digits
    and eight others. -/
def Foreign (c : Char) : Prop :=
  ¬ ('a' ≤ c ∧ c ≤ 'z' ∨ 'A' ≤ c ∧ c ≤ 'Z' ∨ '0' ≤ c ∧ c ≤ '9' ∨ c ∈ "-+*/()=.".toList)

theorem foreign_iff {c : Char} : Foreign c ↔ isAllowed c = false := by
  have hsymbols : "-+*/()=.".toList = alphabetSymbols := rfl
  rw [Foreign, hsymbols, ← Bool.not_eq_true, isAllowed, Bool.or_eq_true, List.contains_iff_mem,
    Char.isAlphanum, Bool.or_eq_true, Char.isAlpha, Bool.or_eq_true, Char.isUpper, Char.isLower,
    Char.isDigit]
  simp only [Bool.and_eq_true, decide_eq_true_eq]
  tauto

/-! ## Items that are first met -/

/-- The items of `xs` that `p` holds of are those of `cs`, each once, in the
    order in which they are first met. -/
structure FirstMet {α : Type} [BEq α] (p : α → Prop) (xs cs : List α) : Prop where
  mem_iff : ∀ c, c ∈ cs ↔ c ∈ xs ∧ p c
  nodup : cs.Nodup
  inOrder : cs.Pairwise fun c d => xs.idxOf c < xs.idxOf d

section FirstMet

variable {α : Type} [BEq α] [LawfulBEq α] {p : α → Prop} {xs cs : List α} {x : α}

namespace FirstMet

/-- One item more at the end leaves the places of the others as they are. -/
theorem inOrder_concat (h : FirstMet p xs cs) (x : α) :
    cs.Pairwise fun c d => (xs ++ [x]).idxOf c < (xs ++ [x]).idxOf d := by
  refine h.inOrder.imp_of_mem fun {c d} hc hd hlt => ?_
  rwa [List.idxOf_append_of_mem ((h.mem_iff c).1 hc).1,
    List.idxOf_append_of_mem ((h.mem_iff d).1 hd).1]

theorem concat_old (h : FirstMet p xs cs) (hx : p x → x ∈ xs) : FirstMet p (xs ++ [x]) cs := by
  refine ⟨fun c => ?_, h.nodup, h.inOrder_concat x⟩
  rw [h.mem_iff, List.mem_append, List.mem_singleton]
  constructor
  · exact fun hc => ⟨.inl hc.1, hc.2⟩
  · rintro ⟨hc | rfl, hp⟩
    · exact ⟨hc, hp⟩
    · exact ⟨hx hp, hp⟩

theorem concat_new (h : FirstMet p xs cs) (hx : x ∉ xs) (hp : p x) :
    FirstMet p (xs ++ [x]) (cs ++ [x]) := by
  have hnot : x ∉ cs := fun hc => hx ((h.mem_iff x).1 hc).1
  refine ⟨fun c => ?_, List.concat_eq_append ▸ h.nodup.concat hnot, ?_⟩
  · simp only [List.mem_append, List.mem_singleton, h.mem_iff]
    constructor
    · rintro (hc | rfl)
      · exact ⟨.inl hc.1, hc.2⟩
      · exact ⟨.inr rfl, hp⟩
    · rintro ⟨hc | rfl, hpc⟩
      · exact .inl ⟨hc, hpc⟩
      · exact .inr rfl
  · refine List.pairwise_append.2 ⟨h.inOrder_concat x, List.pairwise_singleton _ _, ?_⟩
    intro c hc d hd
    obtain rfl := List.mem_singleton.1 hd
    have hmem := ((h.mem_iff c).1 hc).1
    rw [List.idxOf_append_of_mem hmem, List.idxOf_append_of_notMem hx]
    exact Nat.lt_add_right _ (List.idxOf_lt_length_of_mem hmem)

end FirstMet

/-- **Erasing duplicates** leaves each item where it is first met. -/
theorem firstMet_eraseDups (q : α → Bool) (xs : List α) :
    FirstMet (fun x => q x = true) xs (xs.filter q).eraseDups := by
  induction xs using List.reverseRecOn with
  | nil => exact ⟨fun c => by simp, .nil, .nil⟩
  | append_singleton xs x ih =>
    rw [List.filter_append]
    by_cases hq : q x = true
    · rw [List.filter_cons_of_pos hq, List.filter_nil]
      by_cases hx : x ∈ xs
      · rw [eraseDups_concat_of_mem (List.mem_filter.2 ⟨hx, hq⟩)]
        exact ih.concat_old fun _ => hx
      · rw [eraseDups_concat_of_not_mem (mt List.mem_of_mem_filter hx)]
        exact ih.concat_new hx hq
    · rw [List.filter_cons_of_neg hq, List.filter_nil, List.append_nil]
      exact ih.concat_old fun h => absurd h hq

end FirstMet

theorem firstMet_outsiders (text : String) :
    FirstMet Foreign text.toList (outsiders text) := by
  have hforeign : Foreign = fun c => (!isAllowed c) = true := by
    funext c
    rw [foreign_iff, Bool.not_eq_true']
  rw [hforeign]
  exact firstMet_eraseDups _ _

/-! ## Turning texts down -/

/-- A text is turned down for its characters just when some of them are not in
    the alphabet, and the error names these. -/
structure TurnsDown {α : Type} (text : String) (x : Except Error α) : Prop where
  iff : inAlphabet text = false ↔ ∃ cs, x = .error (.alphabet cs)
  names : ∀ cs, x = .error (.alphabet cs) → FirstMet Foreign text.toList cs.toList

theorem inAlphabet_eq_false_iff {text : String} :
    inAlphabet text = false ↔ ∃ c ∈ text.toList, Foreign c := by
  simp only [inAlphabet, List.all_eq_false, foreign_iff, Bool.not_eq_true]

theorem scan_of_outsiders {text : String} (h : outsiders text ≠ []) :
    scan text = .error (.alphabet (String.ofList (outsiders text))) :=
  if_pos h

/-- What else can be wrong with the characters of a text is lexical. -/
theorem scan_ne_alphabet {text : String} (h : outsiders text = []) (cs : String) :
    scan text ≠ .error (.alphabet cs) := by
  intro hscan
  rw [scan, if_neg (not_not.2 h)] at hscan
  dsimp only at hscan
  split at hscan
  · cases hscan
  · split at hscan <;> cases hscan

theorem turnsDown_scan (text : String) : TurnsDown text (scan text) := by
  by_cases h : outsiders text = []
  · refine ⟨iff_of_false ?_ ?_, fun cs hcs => absurd hcs (scan_ne_alphabet h cs)⟩
    · rw [outsiders_eq_nil_iff.1 h]
      exact Bool.noConfusion
    · rintro ⟨cs, hcs⟩
      exact scan_ne_alphabet h cs hcs
  · rw [scan_of_outsiders h]
    refine ⟨iff_of_true (Bool.eq_false_iff.2 (mt outsiders_eq_nil_iff.2 h)) ⟨_, rfl⟩, ?_⟩
    intro cs hcs
    cases hcs
    rw [String.toList_ofList]
    exact firstMet_outsiders text

namespace TurnsDown

variable {α β : Type} {text : String} {x : Except Error α}

/-- What is done with the tokens later on changes nothing. -/
theorem bind (h : TurnsDown text x) {f : α → Except Error β}
    (hf : ∀ a cs, f a ≠ .error (.alphabet cs)) : TurnsDown text (x >>= f) := by
  have heq (cs : String) : (x >>= f) = .error (.alphabet cs) ↔ x = .error (.alphabet cs) := by
    rw [bind_eq_error]
    exact or_iff_left fun ⟨a, _, ha⟩ => hf a cs ha
  refine ⟨?_, fun cs hcs => h.names cs ((heq cs).1 hcs)⟩
  rw [h.iff]
  exact exists_congr fun cs => (heq cs).symm

theorem of_map {f : α → β} (h : TurnsDown text (x.map f)) : TurnsDown text x := by
  have heq (cs : String) : x.map f = .error (.alphabet cs) ↔ x = .error (.alphabet cs) := by
    cases x with
    | error e => exact Iff.of_eq (by simp [Except.map])
    | ok a => exact iff_of_false nofun nofun
  refine ⟨?_, fun cs hcs => h.names cs ((heq cs).2 hcs)⟩
  rw [h.iff]
  exact exists_congr heq

end TurnsDown

theorem turnsDown_tokenize (text : String) : TurnsDown text (tokenize text) := by
  rw [tokenize_eq]
  refine (turnsDown_scan text).bind fun ts cs h => ?_
  obtain h | ⟨-, -, h⟩ := bind_eq_error.1 h
  · cases checkBalance_eq_error h
  · cases h

theorem turnsDown_parse (text : String) : TurnsDown text (Formula.parse text) := by
  rw [Formula.parse_eq]
  refine (turnsDown_tokenize text).bind fun ts cs h => ?_
  cases blames_of_ofTokens h with
  | misfit hmisfit => cases hmisfit

theorem turnsDown_get {c : Cache} (h : c.Sound) (text : String) :
    TurnsDown text (c.get text).1.outcome := by
  refine TurnsDown.of_map (f := Shared.formula) ?_
  rw [h.get_outcome]
  exact turnsDown_parse text

/-- **Foreign characters come first.**  A text is turned down for the
    characters that no formula has, each of them named once in the order of
    their first places, just when it has some, whatever else is wrong with it.
    It is so wherever it is read, and so it is stored nowhere. -/
theorem Cache.alphabet_first (text : String) :
    (inAlphabet text = false ↔ ∃ c ∈ text.toList, Foreign c) ∧
    TurnsDown text (scan text) ∧ TurnsDown text (tokenize text) ∧
    TurnsDown text (Formula.parse text) ∧
    ∀ o calls, TurnsDown text (((new o).after calls).get text).1.outcome ∧
      (inAlphabet text = false → ((new o).after calls).contains text = false) := by
  refine ⟨inAlphabet_eq_false_iff, turnsDown_scan text, turnsDown_tokenize text,
    turnsDown_parse text, fun o calls => ?_⟩
  have hsound := (Sound.new o).after calls
  refine ⟨turnsDown_get hsound text, fun hforeign => ?_⟩
  obtain ⟨cs, hparse⟩ := (turnsDown_parse text).iff.1 hforeign
  -- what is stored has been read
  rw [← Bool.not_eq_true, contains_iff, List.mem_map]
  rintro ⟨e, he, rfl⟩
  rw [hsound.parsed e he] at hparse
  cases hparse

/-- A text that is out of balance as well, with a character that comes twice. -/
theorem Cache.alphabet_first_unbalanced :
    let text := "(2 # 3#π"
    let c := (new {}).after [.get "2", .get text]
    scan text = .error (.alphabet " #π") ∧
      FirstMet Foreign text.toList " #π".toList ∧
      (∃ cs, (c.get text).1.outcome = .error (.alphabet cs)) ∧ c.contains text = false := by
  intro text c
  have hscan : scan text = .error (.alphabet " #π") := by decide +kernel
  have hforeign : inAlphabet text = false := by decide +kernel
  obtain ⟨-, hnames, -, -, hcache⟩ := Cache.alphabet_first text
  obtain ⟨hget, hstored⟩ := hcache {} [.get "2", .get text]
  exact ⟨hscan, hnames.names _ hscan, hget.iff.1 hforeign, hstored hforeign⟩

end Reckon
