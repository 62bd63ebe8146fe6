/-
  Reckon — which answers of a cache are one and the same formula.

  * `events_get`: asking for a text is a hit, or a miss and what comes of
    reading it;
  * `countP_journal`: where nothing is cleared and the capacity is not
    limited, a text is built once if it gets stored, and else never;
  * `old_of_mem_after`: what is stored with a serial number from before has
    been stored all the time, and nothing was cleared;
  * `serial_eq_iff`: two answers have one serial number just in case their text
    was stored behind the first one and was not cleared since;
  * `identity_and_builds` puts this together.
-/
import Reckon.Proofs.Requests
import Reckon.Proofs.Settling

namespace Reckon

/-! ## Events -/

namespace Logged

variable {ε α β : Type}

/-- The events of a sequence are those of its parts, up to a failure. -/
theorem events_bind (x : Logged ε α) (f : α → Logged ε β) :
    (x >>= f).events = x.events ++
      match x.outcome with
      | .ok a => (f a).events
      | .error _ => [] := by
  obtain ⟨events, outcome⟩ := x
  cases outcome with
  | error e => exact (List.append_nil _).symm
  | ok a => rfl

/-- A plain computation has no events of its own. -/
theorem events_liftM_bind (x : Except ε α) (f : α → Logged ε β) :
    ((liftM x : Logged ε α) >>= f).events =
      match x with
      | .ok a => (f a).events
      | .error _ => [] := by
  cases x <;> rfl

end Logged

/-- The events of reading a text: that it was cut into tokens and that it was
    built, as far as it was. -/
def Event.ofReading (text : String) : List Event :=
  (match tokenize text with
    | .ok ts => [.tokenized text ts.length]
    | .error _ => []) ++
  match Formula.parse text with
    | .ok f => [.built text f]
    | .error _ => []

/-- Whether an event is that a formula was built of the given text. -/
def Event.builds (text : String) : Event → Bool
  | built t _ => t == text
  | _ => false

theorem Event.builds_miss (t text : String) : ¬ Event.builds t (.miss text) = true :=
  Bool.false_ne_true

theorem events_tokenizeLogged (text : String) :
    (tokenizeLogged text).events = match tokenize text with
      | .ok ts => [.tokenized text ts.length]
      | .error _ => [] := by
  rw [tokenize_eq, tokenizeLogged, Logged.events_liftM_bind]
  cases scan text with
  | error e => rfl
  | ok raw =>
    dsimp only
    rw [Logged.events_liftM_bind, ok_bind]
    cases checkBalance (resolveMinus raw) <;> rfl

theorem events_parseLogged (text : String) :
    (Formula.parseLogged text).events = Event.ofReading text := by
  have houtcome : (tokenizeLogged text).outcome = tokenize text := rfl
  rw [Formula.parseLogged, Logged.events_bind, events_tokenizeLogged, houtcome, Event.ofReading,
    Formula.parse_eq]
  congr 1
  cases tokenize text with
  | error e => rfl
  | ok ts =>
    dsimp only
    rw [Logged.events_liftM_bind, ok_bind]
    cases Formula.ofTokens ts <;> rfl

/-- Reading a text has no event of a cache. -/
theorem countP_cache_ofReading (text : String) :
    (Event.ofReading text).countP (fun e => e.origin = (Event.hit text).origin) = 0 := by
  rw [Event.ofReading]
  cases tokenize text <;> cases Formula.parse text <;> rfl

theorem countP_builds_ofReading (t text : String) :
    (Event.ofReading text).countP (Event.builds t) =
      if (Formula.parse text).isOk = true ∧ text = t then 1 else 0 := by
  have htokenized : (match tokenize text with
      | .ok ts => [Event.tokenized text ts.length]
      | .error _ => []).countP (Event.builds t) = 0 := by
    cases tokenize text <;> rfl
  rw [Event.ofReading, List.countP_append, htokenized, Nat.zero_add]
  cases Formula.parse text with
  | error e => rfl
  | ok f => simp [Event.builds, Except.isOk, Except.toBool]

namespace Cache

variable {c d : Cache} {calls : List Call}

theorem events_build (c : Cache) (text : String) :
    (c.build text).1.events = Event.ofReading text := by
  rw [build, Logged.events_bind, events_parseLogged]
  cases (Formula.parseLogged text).outcome <;> exact List.append_nil _

/-- **The events of asking for a text.**  A hit and nothing else if it is
    stored, and a miss and the events of reading it if not. -/
theorem events_get (henabled : c.options.enabled = true) (text : String) :
    (c.get text).1.events =
      if c.contains text = true then [.hit text] else .miss text :: Event.ofReading text := by
  rw [get, if_pos henabled, contains]
  cases c.find? text with
  | some s => rfl
  | none =>
    show ((Logged.note (.miss text)) >>= fun _ => (c.build text).1).events = _
    rw [Logged.events_bind, if_neg (by decide)]
    exact congrArg _ (events_build c text)

/-- Computing a value leaves no events. -/
theorem events_evaluate (c : Cache) (text : String) (v : Valuation) :
    (c.evaluate text v).1.events = (c.get text).1.events := by
  rw [evaluate, Logged.events_bind]
  cases (c.get text).1.outcome <;> exact List.append_nil _

theorem events_of_request {call : Call} {text : String} (h : call.text? = some text) :
    c.events call = (c.get text).1.events := by
  cases call with
  | get => cases h; rfl
  | evaluate t v => cases h; exact events_evaluate c _ v
  | contains | size | isEmpty | clear => cases h

/-! ## Texts that are built -/

theorem not_contains_of_find? {text : String} (h : c.find? text = none) :
    ¬ c.contains text = true := by
  rw [contains_iff]
  exact find?_eq_none_iff.1 h

/-- A request in a cache that is never full builds a text that is new, and
    stores it. -/
theorem Gets.countP_builds (henabled : c.options.enabled = true)
    (hcapacity : c.options.capacity = none) {text : String} {x : Except Error Shared}
    (hgets : Gets c text x d) (t : String) :
    (if c.contains text = true then [.hit text] else .miss text :: Event.ofReading text).countP
        (Event.builds t) + (if c.contains t = true then 1 else 0) =
      if d.contains t = true then 1 else 0 := by
  cases hgets with
  | found _ hfind =>
    rw [if_pos (by rw [contains, hfind]; rfl)]
    exact Nat.zero_add _
  | @stored f _ hfind _ hparse =>
    have hno := not_contains_of_find? hfind
    rw [if_neg hno, List.countP_cons_of_neg (Event.builds_miss t text), countP_builds_ofReading,
      hparse]
    have hadd : (c.add text f).contains t = true ↔ c.contains t = true ∨ t = text := by
      simp only [contains_iff, add, List.map_append, List.mem_append, List.map_cons, List.map_nil,
        List.mem_singleton]
    by_cases ht : text = t
    · subst ht
      simp [hadd, hno, Except.isOk, Except.toBool]
    · simp [hadd, ht, Ne.symm ht]
  | passed hfull =>
    have := (hfull henabled).2
    rw [isFull, hcapacity] at this
    cases this
  | failed hfind hparse =>
    have hno := not_contains_of_find? (hfind henabled)
    rw [if_neg hno, List.countP_cons_of_neg (Event.builds_miss t text), countP_builds_ofReading,
      hparse, if_neg fun h => Bool.noConfusion h.1]
    exact Nat.zero_add _

/-- **Texts are built at most once** in a cache that is never full and never
    cleared: once if the text gets stored, and else never. -/
theorem countP_journal (henabled : c.options.enabled = true)
    (hcapacity : c.options.capacity = none) (hclear : .clear ∉ calls) (t : String) :
    (c.journal calls).countP (Event.builds t) + (if c.contains t = true then 1 else 0) =
      if (c.after calls).contains t = true then 1 else 0 := by
  induction calls generalizing c with
  | nil => exact Nat.zero_add _
  | cons call calls ih =>
    obtain ⟨hne, hclear⟩ := List.ne_and_not_mem_of_not_mem_cons hclear
    have hoptions := (grows_next c (Ne.symm hne)).options_eq
    have hrest := ih (by rw [hoptions, henabled]) (by rw [hoptions, hcapacity]) hclear
    have hcall : (c.events call).countP (Event.builds t) + (if c.contains t = true then 1 else 0) =
        if (c.next call).contains t = true then 1 else 0 := by
      cases call with
      | get text | evaluate text =>
        rw [events_of_request rfl, events_get henabled]
        exact (gets_get c text).countP_builds henabled hcapacity t
      | contains | size | isEmpty => exact Nat.zero_add _
      | clear => exact absurd rfl hne
    rw [journal, List.countP_append]
    rw [← hcall] at hrest
    show _ = if ((c.next call).after calls).contains t = true then 1 else 0
    omega

/-! ## One and the same formula -/

theorem Grows.nextSerial_le (h : Grows c d) : c.nextSerial ≤ d.nextSerial := by
  cases h with
  | refl => exact le_rfl
  | skip | add => exact Nat.le_succ _

theorem Grows.old_of_mem (h : Grows c d) {e : String × Shared} (he : e ∈ d.entries)
    (hserial : e.2.serial < c.nextSerial) : e ∈ c.entries := by
  cases h with
  | refl | skip => exact he
  | add =>
    rcases mem_entries_add.1 he with he | rfl
    · exact he
    · exact absurd hserial (Nat.lt_irrefl _)

/-- **What is stored with a serial number from before** has been stored all the
    time. -/
theorem old_of_mem_after {e : String × Shared} (he : e ∈ (c.after calls).entries)
    (hserial : e.2.serial < c.nextSerial) : e ∈ c.entries ∧ .clear ∉ calls := by
  induction calls generalizing c with
  | nil => exact ⟨he, List.not_mem_nil⟩
  | cons call calls ih =>
    by_cases hcall : call = .clear
    · subst hcall
      exact absurd (ih (c := c.clear) he hserial).1 List.not_mem_nil
    · have hgrows := grows_next c hcall
      obtain ⟨hmem, hclear⟩ := ih he (hserial.trans_le hgrows.nextSerial_le)
      exact ⟨hgrows.old_of_mem hmem hserial,
        List.not_mem_cons_of_ne_of_not_mem (Ne.symm hcall) hclear⟩

/-- What is stored stays, unless it is cleared. -/
theorem find?_after {text : String} {s : Shared} (h : c.find? text = some s)
    (hclear : .clear ∉ calls) : (c.after calls).find? text = some s :=
  after_induction (P := fun d => d.find? text = some s) h (fun hd hgrows => hgrows.find?_eq hd)
    fun hmem => absurd hmem hclear

theorem Sound.enabled_of_mem (h : c.Sound) {e : String × Shared} (he : e ∈ c.entries) :
    c.options.enabled = true := by
  by_contra hdisabled
  rw [h.idle (Bool.eq_false_iff.2 hdisabled)] at he
  cases he

/-- What is stored for a text behind a request for it is what was handed out. -/
theorem Gets.find?_eq (h : c.Sound) {text : String} {s : Shared} (hgets : Gets c text (.ok s) d)
    (hstored : d.contains text = true) : d.find? text = some s := by
  cases hgets with
  | found _ hfind => exact hfind
  | stored _ hfind =>
    unfold find? at hfind ⊢
    rw [Cache.add, List.lookup_append, hfind]
    simp
  | passed hnone =>
    obtain ⟨s', hfind⟩ := Option.isSome_iff_exists.1 hstored
    change c.find? text = some s' at hfind
    rw [(hnone (h.enabled_of_mem (mem_of_find? hfind))).1] at hfind
    cases hfind

theorem get_outcome_of_find? (henabled : c.options.enabled = true) {text : String} {s : Shared}
    (h : c.find? text = some s) : (c.get text).1.outcome = .ok s := by
  rw [get, if_pos henabled, h]
  rfl

/-- **Two answers are the same formula** just in case they are asked for by one
    text, and it was stored behind the first request and not cleared since. -/
theorem Sound.serial_eq_iff (h : c.Sound) {text text' : String} {s s' : Shared}
    {between : List Call} (hget : (c.get text).1.outcome = .ok s)
    (hget' : (((c.get text).2.after between).get text').1.outcome = .ok s') :
    s'.serial = s.serial ↔ text' = text ∧ c.options.enabled = true ∧
      (c.get text).2.contains text = true ∧ .clear ∉ between := by
  have hgets := gets_of_outcome hget
  have hgrows := hgets.grows
  constructor
  · intro hserial
    have howns := hgets.owns h
    obtain ⟨heq, hfind⟩ := (howns.after between).of_gets (gets_of_outcome hget') hserial
    obtain ⟨rfl, rfl⟩ := Prod.mk.inj heq
    obtain ⟨hmem, hclear⟩ := old_of_mem_after (mem_of_find? hfind) howns.issued
    have henabled := (h.grows hgrows).enabled_of_mem hmem
    rw [hgrows.options_eq] at henabled
    exact ⟨rfl, henabled, contains_iff.2 (List.mem_map.2 ⟨_, hmem, rfl⟩), hclear⟩
  · rintro ⟨rfl, henabled, hstored, hclear⟩
    have hfind := find?_after (hgets.find?_eq h hstored) hclear
    rw [get_outcome_of_find? _ hfind] at hget'
    · cases hget'
      rfl
    · rw [options_after, hgrows.options_eq, henabled]

/-- **Identity and builds.**  Two requests are answered by the very same formula
    just in case they ask for the same text, the cache is enabled, the text is
    stored behind the first request and nothing is cleared between them.  So
    where nothing is cleared and the capacity is not limited, a text is built
    at most once.  This shows in the journal, as every request to an enabled
    cache leaves just one event of the cache: a hit and no other event if the
    text is stored, and else a miss, before that of the tokens if there are
    some, and that of the formula if it is built. -/
theorem identity_and_builds (o : Options) (calls : List Call) (text : String) :
    (∀ s between text' s', (((new o).after calls).get text).1.outcome = .ok s →
      (((new o).after (calls ++ .get text :: between)).get text').1.outcome = .ok s' →
      (s'.serial = s.serial ↔ text' = text ∧ o.enabled = true ∧
        ((new o).after (calls ++ [.get text])).contains text = true ∧ .clear ∉ between)) ∧
    (o.enabled = true → o.capacity = none → .clear ∉ calls →
      ((new o).journal calls).countP (Event.builds text) ≤ 1) ∧
    (o.enabled = true → ∀ call, call.text? = some text →
      ((new o).after calls).events call =
        (if ((new o).after calls).contains text = true then [.hit text]
          else .miss text :: Event.ofReading text) ∧
      (((new o).after calls).events call).countP
        (fun e => e.origin = (Event.hit text).origin) = 1) ∧
    (Event.hit text).level = .trace ∧ (Event.miss text).level = .debug := by
  have hsound := (Sound.new o).after calls
  refine ⟨?_, ?_, ?_, rfl, rfl⟩
  · intro s between text' s' hget hget'
    rw [after_append] at hget'
    rw [hsound.serial_eq_iff hget hget', options_after, after_append]
    rfl
  · intro henabled hcapacity hclear
    have hbuilds := countP_journal (c := new o) henabled hcapacity hclear text
    have hone : (if ((new o).after calls).contains text = true then 1 else 0) ≤ 1 := by
      split
      · exact le_rfl
      · exact Nat.zero_le _
    exact (Nat.le_add_right _ _).trans (hbuilds.le.trans hone)
  · intro henabled call htext
    rw [events_of_request htext, events_get (by rw [options_after]; exact henabled)]
    refine ⟨rfl, ?_⟩
    split
    · rfl
    · rw [List.countP_cons_of_pos (by rfl), countP_cache_ofReading]

/-- A text that is asked for twice, with a value of it in between. -/
theorem identity_and_builds_twice :
    ∃ s s', (((new {}).after []).get "-x").1.outcome = .ok s ∧
      (((new {}).after ([] ++ .get "-x" :: [.evaluate "-x" .empty])).get "-x").1.outcome = .ok s' ∧
      s'.serial = s.serial ∧
      ((new {}).journal [.get "-x", .evaluate "-x" .empty]).countP (Event.builds "-x") ≤ 1 ∧
      (((new {}).after []).events (.get "-x")).countP
        (fun e => e.origin = (Event.hit "-x").origin) = 1 := by
  let s : Shared := ⟨0, .negate (.leaf (.var "x"))⟩
  have hget : (((new {}).after []).get "-x").1.outcome = .ok s := by cbv
  have hget' : (((new {}).after ([] ++ .get "-x" :: [.evaluate "-x" .empty])).get "-x").1.outcome =
      .ok s := by cbv
  have hstored : ((new {}).after ([] ++ [.get "-x"])).contains "-x" = true := by cbv
  obtain ⟨hidentity, -, hevents, -⟩ := identity_and_builds {} [] "-x"
  have hsame := (hidentity s [.evaluate "-x" .empty] "-x" s hget hget').2
    ⟨rfl, rfl, hstored, by simp⟩
  have hbuilds := (identity_and_builds {} [.get "-x", .evaluate "-x" .empty] "-x").2.1 rfl rfl
    (by simp)
  exact ⟨s, s, hget, hget', hsame, hbuilds, (hevents rfl (.get "-x") rfl).2⟩

end Cache

end Reckon
