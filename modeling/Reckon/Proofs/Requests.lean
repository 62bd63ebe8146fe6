/-
  Reckon — a cache in use.

  A cache is asked for formulas and values, is looked into and cleared
  (`Call`).  Whatever a call does to it comes down to what asking for one text
  can lead to (`Gets`): the text is stored; it is read, and stored or only
  handed out; or it cannot be read.

  * `after`, `journal`, `handed`: the cache behind a list of calls, the events
    of the calls and the formulas that they hand out;
  * `Sound`: what is stored for a text is what it is read as, and no serial
    number is used twice.  Growing keeps this (`Sound.grows`), and so every
    call does (`Sound.after`);
  * `Owns c e`: no other formula than that of the entry `e` has or will get
    its serial number.  It is so from the moment when the formula is handed
    out (`Gets.owns`), and stays so (`Owns.after`);
  * `outcomes_after`: what is handed out by a cache in any state is what is
    read without it, and does not change afterwards.
-/
import Reckon.Cache
import Reckon.Proofs.Settling

namespace Reckon

/-! ## Calls -/

/-- What can be done with a cache. -/
inductive Call where
  /-- ask for the formula of a text -/
  | get (text : String)
  /-- ask for the value of the formula of a text -/
  | evaluate (text : String) (v : Valuation)
  | contains (text : String)
  | size
  | isEmpty
  | clear

/-- The text whose formula a call asks for. -/
def Call.text? : Call → Option String
  | get text | evaluate text _ => some text
  | _ => none

namespace Cache

/-- The cache behind a call. -/
def next (c : Cache) : Call → Cache
  | .get text => (c.get text).2
  | .evaluate text v => (c.evaluate text v).2
  | .contains _ | .size | .isEmpty => c
  | .clear => c.clear

/-- The events of a call. -/
def events (c : Cache) : Call → List Event
  | .get text => (c.get text).1.events
  | .evaluate text v => (c.evaluate text v).1.events
  | _ => []

/-- The formula that a call hands out, if it does. -/
def handsOut? (c : Cache) : Call → Option Shared
  | .get text => (c.get text).1.outcome.toOption
  | _ => none

/-- The cache behind a list of calls. -/
def after (c : Cache) (calls : List Call) : Cache :=
  calls.foldl next c

/-- The events of a list of calls. -/
def journal (c : Cache) : List Call → List Event
  | [] => []
  | call :: calls => c.events call ++ (c.next call).journal calls

/-- The formulas that are handed out by a list of calls. -/
def handed (c : Cache) : List Call → List Shared
  | [] => []
  | call :: calls => (c.handsOut? call).toList ++ (c.next call).handed calls

variable {c d : Cache} {calls : List Call}

theorem after_append (c : Cache) (calls later : List Call) :
    c.after (calls ++ later) = (c.after calls).after later :=
  List.foldl_append

theorem journal_append (c : Cache) (calls later : List Call) :
    c.journal (calls ++ later) = c.journal calls ++ (c.after calls).journal later := by
  induction calls generalizing c with
  | nil => rfl
  | cons call calls ih =>
    rw [List.cons_append, journal, ih, journal, List.append_assoc]
    rfl

theorem handed_append (c : Cache) (calls later : List Call) :
    c.handed (calls ++ later) = c.handed calls ++ (c.after calls).handed later := by
  induction calls generalizing c with
  | nil => rfl
  | cons call calls ih => rw [List.cons_append, handed, ih, handed, List.append_assoc]; rfl

/-! ## Asking for a text -/

/-- A cache that has stored one entry more. -/
def add (c : Cache) (text : String) (f : Formula) : Cache :=
  ⟨c.options, c.entries ++ [(text, ⟨c.nextSerial, f⟩)], c.nextSerial + 1⟩

/-- A cache that has given out one serial number more. -/
def skip (c : Cache) : Cache :=
  { c with nextSerial := c.nextSerial + 1 }

/-- What asking for a text can lead to: the outcome and the cache behind it. -/
inductive Gets (c : Cache) (text : String) : Except Error Shared → Cache → Prop
  | found {s : Shared} : c.options.enabled = true → c.find? text = some s → Gets c text (.ok s) c
  | stored {f : Formula} : c.options.enabled = true → c.find? text = none → c.isFull = false →
      Formula.parse text = .ok f → Gets c text (.ok ⟨c.nextSerial, f⟩) (c.add text f)
  /-- the text is read, and there is no place for it -/
  | passed {f : Formula} :
      (c.options.enabled = true → c.find? text = none ∧ c.isFull = true) →
      Formula.parse text = .ok f → Gets c text (.ok ⟨c.nextSerial, f⟩) c.skip
  | failed {e : Error} : (c.options.enabled = true → c.find? text = none) →
      Formula.parse text = .error e → Gets c text (.error e) c.skip

theorem build_outcome (c : Cache) (text : String) :
    (c.build text).1.outcome = (Formula.parse text).map (Shared.mk c.nextSerial) := by
  simp only [build, Logged.outcome_bind]
  show (Formula.parse text >>= fun f => Except.ok (Shared.mk c.nextSerial f)) = _
  cases Formula.parse text <;> rfl

/-- **All that asking for a text does.** -/
theorem gets_get (c : Cache) (text : String) :
    Gets c text (c.get text).1.outcome (c.get text).2 := by
  unfold get
  by_cases henabled : c.options.enabled = true
  · rw [if_pos henabled]
    cases hfind : c.find? text with
    | some s => exact .found henabled hfind
    | none =>
      simp only [Logged.outcome_bind]
      show Gets c text (c.build text).1.outcome _
      rw [build_outcome]
      cases hparse : Formula.parse text with
      | error e => exact .failed (fun _ => hfind) hparse
      | ok f =>
        show Gets c text (.ok ⟨c.nextSerial, f⟩) (c.skip.store text ⟨c.nextSerial, f⟩)
        by_cases hfull : c.isFull = true
        · rw [store, if_pos (show c.skip.isFull = true from hfull)]
          exact .passed (fun _ => ⟨hfind, hfull⟩) hparse
        · rw [store, if_neg (show ¬ c.skip.isFull = true from hfull)]
          exact .stored henabled hfind (Bool.eq_false_iff.2 hfull) hparse
  · rw [if_neg henabled, build_outcome]
    cases hparse : Formula.parse text with
    | error e => exact .failed (fun h => absurd h henabled) hparse
    | ok f => exact .passed (fun h => absurd h henabled) hparse

theorem gets_of_outcome {text : String} {x : Except Error Shared}
    (h : (c.get text).1.outcome = x) : Gets c text x (c.get text).2 :=
  h ▸ gets_get c text

/-- A value is computed from the formula that is handed out. -/
theorem evaluate_outcome (c : Cache) (text : String) (v : Valuation) :
    (c.evaluate text v).1.outcome =
      (c.get text).1.outcome >>= fun s => s.formula.evaluate v := by
  simp only [evaluate, Logged.outcome_bind]
  rfl

/-! ## Growing -/

/-- What any call but clearing does to a cache. -/
inductive Grows (c : Cache) : Cache → Prop
  | refl : Grows c c
  | skip : Grows c c.skip
  | add {text : String} {f : Formula} : c.options.enabled = true → c.find? text = none →
      c.isFull = false → Formula.parse text = .ok f → Grows c (c.add text f)

theorem Gets.grows {text : String} {x : Except Error Shared} (h : Gets c text x d) : Grows c d := by
  cases h with
  | found => exact .refl
  | stored henabled hfind hfull hparse => exact .add henabled hfind hfull hparse
  | passed => exact .skip
  | failed => exact .skip

theorem grows_next (c : Cache) {call : Call} (h : call ≠ .clear) : Grows c (c.next call) := by
  cases call with
  | get text => exact (gets_get c text).grows
  | evaluate text v => exact (gets_get c text).grows
  | contains | size | isEmpty => exact .refl
  | clear => exact absurd rfl h

theorem Grows.options_eq (h : Grows c d) : d.options = c.options := by
  cases h <;> rfl

/-- Nothing that is stored goes away or is replaced. -/
theorem Grows.isPrefix (h : Grows c d) : c.entries <+: d.entries := by
  cases h with
  | refl | skip => exact List.prefix_refl _
  | add => exact List.prefix_append _ _

theorem Grows.find?_eq (h : Grows c d) {text : String} {s : Shared} (hfind : c.find? text = some s) :
    d.find? text = some s := by
  cases h with
  | refl | skip => exact hfind
  | add =>
    unfold find? at hfind ⊢
    rw [Cache.add, List.lookup_append, hfind]
    rfl

/-- Where something holds of a cache and every call keeps it, it holds behind
    any calls. -/
theorem after_induction {P : Cache → Prop} (hc : P c)
    (hgrows : ∀ {c d}, P c → Grows c d → P d) (hclear : .clear ∈ calls → ∀ {c}, P c → P c.clear) :
    P (c.after calls) := by
  induction calls generalizing c with
  | nil => exact hc
  | cons call calls ih =>
    refine ih ?_ fun hmem => hclear (List.mem_cons_of_mem _ hmem)
    by_cases hcall : call = .clear
    · subst hcall
      exact hclear (List.mem_cons_self ..) hc
    · exact hgrows hc (grows_next c hcall)

theorem options_after (c : Cache) (calls : List Call) : (c.after calls).options = c.options := by
  refine after_induction (P := fun d => d.options = c.options) rfl ?_ fun _ _ hd => hd
  exact fun hd hgrows => hgrows.options_eq.trans hd

/-! ## What is stored -/

theorem mem_of_find? {text : String} {s : Shared} (h : c.find? text = some s) :
    (text, s) ∈ c.entries :=
  mem_of_lookup_eq_some h

theorem find?_eq_none_iff {text : String} :
    c.find? text = none ↔ text ∉ c.entries.map Prod.fst :=
  lookup_eq_none_iff_not_mem

theorem contains_iff {text : String} :
    c.contains text = true ↔ text ∈ c.entries.map Prod.fst := by
  rw [contains, Option.isSome_iff_ne_none, ne_eq, find?_eq_none_iff, not_not]

/-- What is stored is right, and its serial numbers are its own. -/
structure Sound (c : Cache) : Prop where
  /-- what is stored for a text is what it is read as -/
  parsed : ∀ e ∈ c.entries, Formula.parse e.1 = .ok e.2.formula
  /-- the serial numbers were given out already -/
  issued : ∀ e ∈ c.entries, e.2.serial < c.nextSerial
  /-- no serial number is used twice -/
  distinct : ∀ e ∈ c.entries, ∀ e' ∈ c.entries, e'.2.serial = e.2.serial → e' = e
  /-- nothing is stored in a cache that is disabled -/
  idle : c.options.enabled = false → c.entries = []

theorem Sound.new (o : Options) : (new o).Sound :=
  ⟨nofun, nofun, nofun, fun _ => rfl⟩

theorem Sound.clear (_ : c.Sound) : c.clear.Sound :=
  ⟨nofun, nofun, nofun, fun _ => rfl⟩

theorem mem_entries_add {text : String} {f : Formula} {e : String × Shared} :
    e ∈ (c.add text f).entries ↔ e ∈ c.entries ∨ e = (text, ⟨c.nextSerial, f⟩) := by
  simp only [add, List.mem_append, List.mem_singleton]

theorem Sound.grows (h : c.Sound) (hgrows : Grows c d) : d.Sound := by
  cases hgrows with
  | refl => exact h
  | skip => exact ⟨h.parsed, fun e he => Nat.lt_succ_of_lt (h.issued e he), h.distinct, h.idle⟩
  | @add text f henabled _ _ hparse =>
    refine ⟨?_, ?_, ?_, fun hdisabled => ?_⟩
    · intro e he
      rcases mem_entries_add.1 he with he | rfl
      · exact h.parsed e he
      · exact hparse
    · intro e he
      rcases mem_entries_add.1 he with he | rfl
      · exact Nat.lt_succ_of_lt (h.issued e he)
      · exact Nat.lt_succ_self _
    · -- the new serial number is greater than all that are in use
      intro e he e' he' hserial
      rcases mem_entries_add.1 he with he | rfl <;> rcases mem_entries_add.1 he' with he' | rfl
      · exact h.distinct e he e' he' hserial
      · exact absurd hserial (Nat.ne_of_gt (h.issued e he))
      · exact absurd hserial (Nat.ne_of_lt (h.issued e' he'))
      · rfl
    · exact Bool.noConfusion (henabled.symm.trans hdisabled)

theorem Sound.after (h : c.Sound) (calls : List Call) : (c.after calls).Sound :=
  after_induction h Sound.grows fun _ _ => Sound.clear

/-- **What is handed out is what is read**, wherever it comes from. -/
theorem Gets.formula_eq (h : c.Sound) {text : String} {x : Except Error Shared}
    (hgets : Gets c text x d) : x.map Shared.formula = Formula.parse text := by
  cases hgets with
  | found _ hfind => exact (h.parsed _ (mem_of_find? hfind)).symm
  | stored _ _ _ hparse => exact hparse.symm
  | passed _ hparse => exact hparse.symm
  | failed _ hparse => exact hparse.symm

theorem Sound.get_outcome (h : c.Sound) (text : String) :
    (c.get text).1.outcome.map Shared.formula = Formula.parse text :=
  (gets_get c text).formula_eq h

theorem Sound.evaluate_outcome (h : c.Sound) (text : String) (v : Valuation) :
    (c.evaluate text v).1.outcome = Formula.parse text >>= fun f => f.evaluate v := by
  rw [Cache.evaluate_outcome, ← h.get_outcome text]
  cases (c.get text).1.outcome <;> rfl

/-! ## Serial numbers -/

/-- The serial number of an entry belongs to it: it has been given out, and
    nothing else that is stored has it. -/
structure Owns (c : Cache) (e : String × Shared) : Prop where
  issued : e.2.serial < c.nextSerial
  unique : ∀ e' ∈ c.entries, e'.2.serial = e.2.serial → e' = e

theorem Owns.clear {e : String × Shared} (h : c.Owns e) : c.clear.Owns e :=
  ⟨h.issued, nofun⟩

theorem Owns.grows {e : String × Shared} (h : c.Owns e) (hgrows : Grows c d) : d.Owns e := by
  cases hgrows with
  | refl => exact h
  | skip => exact ⟨Nat.lt_succ_of_lt h.issued, h.unique⟩
  | add =>
    refine ⟨Nat.lt_succ_of_lt h.issued, fun e' he' hserial => ?_⟩
    rcases mem_entries_add.1 he' with he' | rfl
    · exact h.unique e' he' hserial
    · exact absurd hserial (Nat.ne_of_gt h.issued)

theorem Owns.after {e : String × Shared} (h : c.Owns e) (calls : List Call) :
    (c.after calls).Owns e :=
  after_induction (P := fun d => d.Owns e) h Owns.grows fun _ _ => Owns.clear

/-- **A formula owns its serial number** once it has been handed out. -/
theorem Gets.owns (h : c.Sound) {text : String} {s : Shared} (hgets : Gets c text (.ok s) d) :
    d.Owns (text, s) := by
  cases hgets with
  | found _ hfind =>
    have hmem := mem_of_find? hfind
    exact ⟨h.issued _ hmem, h.distinct _ hmem⟩
  | @stored f henabled hfind hfull hparse =>
    have hd := h.grows (.add henabled hfind hfull hparse)
    have hmem : (text, ⟨c.nextSerial, f⟩) ∈ (c.add text f).entries := mem_entries_add.2 (.inr rfl)
    exact ⟨hd.issued _ hmem, hd.distinct _ hmem⟩
  | passed =>
    refine ⟨Nat.lt_succ_self _, fun e' he' hserial => ?_⟩
    exact absurd hserial (Nat.ne_of_lt (h.issued e' he'))

/-- What is handed out with a serial number that has an owner is its owner, and
    is stored. -/
theorem Owns.of_gets {e : String × Shared} (h : c.Owns e) {text : String} {s : Shared}
    (hgets : Gets c text (.ok s) d) (hserial : s.serial = e.2.serial) :
    (text, s) = e ∧ c.find? text = some s := by
  cases hgets with
  | found _ hfind => exact ⟨h.unique _ (mem_of_find? hfind) hserial, hfind⟩
  | stored => exact absurd hserial (Nat.ne_of_gt h.issued)
  | passed => exact absurd hserial (Nat.ne_of_gt h.issued)

theorem gets_of_handsOut {call : Call} {s : Shared} (h : c.handsOut? call = some s) :
    ∃ text, Gets c text (.ok s) (c.next call) := by
  cases call with
  | get text =>
    refine ⟨text, gets_of_outcome ?_⟩
    change (c.get text).1.outcome.toOption = some s at h
    cases hget : (c.get text).1.outcome with
    | error e => rw [hget] at h; cases h
    | ok s' => rw [hget] at h; cases h; rfl
  | evaluate | contains | size | isEmpty | clear => cases h

theorem Owns.eq_of_mem_handed {e : String × Shared} (h : c.Owns e) {s : Shared}
    (hs : s ∈ c.handed calls) (hserial : s.serial = e.2.serial) : s = e.2 := by
  induction calls generalizing c with
  | nil => cases hs
  | cons call calls ih =>
    rcases List.mem_append.1 hs with hs | hs
    · obtain ⟨text, hgets⟩ := gets_of_handsOut (Option.mem_toList.1 hs)
      exact congrArg Prod.snd (h.of_gets hgets hserial).1
    · exact ih (h.after [call]) hs

/-- **Formulas with one serial number are one formula**, whenever they are
    handed out. -/
theorem Sound.handed_pairwise (h : c.Sound) (calls : List Call) :
    (c.handed calls).Pairwise fun s s' => s'.serial = s.serial → s' = s := by
  induction calls generalizing c with
  | nil => exact .nil
  | cons call calls ih =>
    refine List.pairwise_append.2 ⟨?_, ih (h.after [call]), fun s hs s' hs' => ?_⟩
    · cases c.handsOut? call with
      | none => exact .nil
      | some s => exact List.pairwise_singleton _ _
    · obtain ⟨text, hgets⟩ := gets_of_handsOut (Option.mem_toList.1 hs)
      exact (hgets.owns h).eq_of_mem_handed hs'

theorem Sound.eq_of_mem_handed (h : c.Sound) {s s' : Shared} (hs : s ∈ c.handed calls)
    (hs' : s' ∈ c.handed calls) (hserial : s'.serial = s.serial) : s' = s := by
  have hpairwise := h.handed_pairwise calls
  obtain ⟨i, hi, rfl⟩ := List.mem_iff_getElem.1 hs
  obtain ⟨j, hj, rfl⟩ := List.mem_iff_getElem.1 hs'
  rcases Nat.lt_trichotomy i j with hij | rfl | hij
  · exact List.pairwise_iff_getElem.1 hpairwise i j hi hj hij hserial
  · rfl
  · exact (List.pairwise_iff_getElem.1 hpairwise j i hj hi hij hserial.symm).symm

/-! ## Reading with and without a cache -/

/-- **A cache makes no difference to outcomes.**  Whatever it has been used for
    and however it works, it hands out what is read without it, or the same
    error, and values are what is computed without it.  What has been handed
    out stays as it is through all later calls, clearing included: it is still
    in its place, and its serial number stands for no other formula, so that
    its values are the same. -/
theorem outcomes_after (o : Options) (calls : List Call) :
    (∀ text, (((new o).after calls).get text).1.outcome.map Shared.formula =
      Formula.parse text) ∧
    (∀ text v, (((new o).after calls).evaluate text v).1.outcome =
      Formula.parse text >>= fun f => f.evaluate v) ∧
    ∀ later, (new o).handed calls <+: (new o).handed (calls ++ later) ∧
      ∀ s ∈ (new o).handed calls, ∀ s' ∈ (new o).handed (calls ++ later), s'.serial = s.serial →
        ∀ v, s'.formula.evaluate v = s.formula.evaluate v := by
  have hsound := (Sound.new o).after calls
  refine ⟨hsound.get_outcome, hsound.evaluate_outcome, fun later => ⟨?_, ?_⟩⟩
  · rw [handed_append]
    exact List.prefix_append _ _
  · intro s hs s' hs' hserial v
    have hmem : s ∈ (new o).handed (calls ++ later) := by
      rw [handed_append]
      exact List.mem_append_left _ hs
    rw [(Sound.new o).eq_of_mem_handed hmem hs' hserial]

/-- A formula that is handed out, and once more before the cache is cleared. -/
theorem outcomes_before_clear :
    ∃ s ∈ (new {}).handed [.get "-x"],
      s ∈ (new {}).handed ([.get "-x"] ++ [.get "-x", .clear, .get "-x"]) ∧
      (((new {}).after [.get "-x"]).get "-x").1.outcome.map Shared.formula = .ok s.formula ∧
      ∀ s' ∈ (new {}).handed ([.get "-x"] ++ [.get "-x", .clear, .get "-x"]),
        s'.serial = s.serial → ∀ v, s'.formula.evaluate v = s.formula.evaluate v := by
  let s : Shared := ⟨0, .negate (.leaf (.var "x"))⟩
  have hhanded : (new {}).handed [.get "-x"] = [s] := by cbv
  have hlater : (new {}).handed ([.get "-x"] ++ [.get "-x", .clear, .get "-x"]) =
      [s, s, ⟨1, s.formula⟩] := by cbv
  have hmem : s ∈ (new {}).handed [.get "-x"] := by
    rw [hhanded]
    exact List.mem_singleton_self s
  obtain ⟨hget, -, hkept⟩ := outcomes_after {} [.get "-x"]
  refine ⟨s, hmem, ?_, ?_, (hkept [.get "-x", .clear, .get "-x"]).2 s hmem⟩
  · rw [hlater]
    exact List.mem_cons_self ..
  · rw [hget]
    cbv

end Cache

end Reckon
