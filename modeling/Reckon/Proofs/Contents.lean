/-
  Reckon — what a cache stores.

  What is stored can be told from the calls alone (`stored`): of the texts
  that have been asked for since the cache was last cleared, those that can be
  read, each once, in the order in which they were first asked for, and of
  these as many as there is room for.

  * `readable_concat` and `Gets.texts_eq`: what one request more changes, in the
    list of texts that should be stored and in the cache;
  * `texts_after`: these lists are the same after any calls;
  * `contents_after`: what can be seen of a cache agrees with them.
-/
import Reckon.Proofs.Requests

namespace Reckon

/-! ## Each item once -/

section EraseDups

variable {α : Type} [BEq α] [LawfulBEq α] {l : List α} {a : α}

theorem eraseDups_concat_of_mem (h : a ∈ l) : (l ++ [a]).eraseDups = l.eraseDups := by
  rw [List.eraseDups_append]
  simp [List.removeAll, h]

theorem eraseDups_concat_of_not_mem (h : a ∉ l) :
    (l ++ [a]).eraseDups = l.eraseDups ++ [a] := by
  rw [List.eraseDups_append]
  simp [List.removeAll, h, List.eraseDups_cons]

theorem nodup_eraseDups (l : List α) : l.eraseDups.Nodup := by
  induction l using List.reverseRecOn with
  | nil => simp
  | append_singleton l a ih =>
    by_cases h : a ∈ l
    · rwa [eraseDups_concat_of_mem h]
    · rw [eraseDups_concat_of_not_mem h, ← List.concat_eq_append]
      exact ih.concat (mt List.mem_eraseDups.1 h)

end EraseDups

/-! ## The texts that should be stored -/

/-- The calls behind the last one that clears the cache. -/
def sinceClear (calls : List Call) : List Call :=
  calls.rtakeWhile fun call => match call with
    | .clear => false
    | _ => true

/-- The texts that calls ask for and that can be read, each once, in the order
    in which they are first asked for. -/
def readable (calls : List Call) : List String :=
  ((calls.filterMap Call.text?).filter fun text => (Formula.parse text).isOk).eraseDups

/-- As many texts as there is room for, the first ones. -/
def Cache.Options.keep (o : Cache.Options) (texts : List String) : List String :=
  match o.enabled, o.capacity with
  | false, _ => []
  | true, none => texts
  | true, some n => texts.take n

/-- The texts that are stored behind the given calls. -/
def stored (o : Cache.Options) (calls : List Call) : List String :=
  o.keep (readable (sinceClear calls))

theorem sinceClear_clear (calls : List Call) : sinceClear (calls ++ [.clear]) = [] :=
  List.rtakeWhile_concat_neg _ _ _ (by decide)

theorem sinceClear_concat (calls : List Call) {call : Call} (h : call ≠ .clear) :
    sinceClear (calls ++ [call]) = sinceClear calls ++ [call] := by
  refine List.rtakeWhile_concat_pos _ _ _ ?_
  cases call with
  | clear => exact absurd rfl h
  | get | evaluate | contains | size | isEmpty => rfl

theorem sinceClear_append (calls : List Call) {later : List Call} (h : .clear ∉ later) :
    sinceClear (calls ++ later) = sinceClear calls ++ later := by
  induction later using List.reverseRecOn with
  | nil => rw [List.append_nil, List.append_nil]
  | append_singleton later call ih =>
    rw [List.mem_append, List.mem_singleton, not_or] at h
    rw [← List.append_assoc, sinceClear_concat _ (Ne.symm h.2), ih h.1, List.append_assoc]

theorem mem_readable {calls : List Call} {text : String} :
    text ∈ readable calls ↔
      (∃ call ∈ calls, call.text? = some text) ∧ (Formula.parse text).isOk = true := by
  rw [readable, List.mem_eraseDups, List.mem_filter, List.mem_filterMap]

theorem readable_isPrefix (calls later : List Call) :
    readable calls <+: readable (calls ++ later) := by
  rw [readable, readable, List.filterMap_append, List.filter_append, List.eraseDups_append]
  exact List.prefix_append _ _

/-- A call that asks for nothing adds nothing. -/
theorem readable_concat_of_none (calls : List Call) {call : Call} (h : call.text? = none) :
    readable (calls ++ [call]) = readable calls := by
  rw [readable, List.filterMap_append, List.filterMap_cons_none h, List.filterMap_nil,
    List.append_nil, readable]

/-- A text that is asked for is added if it can be read and is new. -/
theorem readable_concat (calls : List Call) {call : Call} {text : String}
    (h : call.text? = some text) :
    readable (calls ++ [call]) =
      if (Formula.parse text).isOk = true ∧ text ∉ readable calls then readable calls ++ [text]
      else readable calls := by
  simp only [readable, List.filterMap_append, List.filterMap_cons_some h, List.filterMap_nil,
    List.filter_append, List.mem_eraseDups]
  generalize (calls.filterMap Call.text?).filter _ = texts
  by_cases hok : (Formula.parse text).isOk = true
  · have hkept : [text].filter (fun text => (Formula.parse text).isOk) = [text] :=
      List.filter_eq_self.2 fun t ht => List.mem_singleton.1 ht ▸ hok
    rw [hkept]
    by_cases hmem : text ∈ texts
    · rw [eraseDups_concat_of_mem hmem, if_neg fun h => h.2 hmem]
    · rw [eraseDups_concat_of_not_mem hmem, if_pos ⟨hok, hmem⟩]
  · simp [hok]

namespace Cache

/-! ## Room -/

/-- The texts that are stored, in the order in which they came. -/
def texts (c : Cache) : List String :=
  c.entries.map Prod.fst

theorem size_eq_length (c : Cache) : c.size = c.texts.length :=
  (List.length_map _).symm

namespace Options

variable {o : Options} {texts : List String}

theorem keep_isPrefix (o : Options) (texts : List String) : o.keep texts <+: texts := by
  unfold keep
  split
  · exact List.nil_prefix
  · exact List.prefix_refl _
  · exact List.take_prefix _ _

theorem keep_nil (o : Options) : o.keep [] = [] :=
  List.prefix_nil.1 (o.keep_isPrefix [])

theorem keep_of_disabled (h : ¬ o.enabled = true) (texts : List String) : o.keep texts = [] := by
  rw [keep, Bool.eq_false_iff.2 h]

theorem length_keep_le {n : Nat} (h : o.capacity = some n) (texts : List String) :
    (o.keep texts).length ≤ n := by
  unfold keep
  split
  · exact Nat.zero_le _
  · rename_i hnone
    rw [h] at hnone
    cases hnone
  · rename_i m hm
    rw [h] at hm
    cases hm
    exact List.length_take_le _ _

/-- Where the capacity is not reached, all texts are kept, and there is room
    for one more. -/
theorem keep_of_not_full (henabled : o.enabled = true)
    (h : (o.capacity.any fun n => n ≤ (o.keep texts).length) = false) :
    o.keep texts = texts ∧ ∀ text, o.keep (texts ++ [text]) = texts ++ [text] := by
  unfold keep at h ⊢
  rw [henabled] at h ⊢
  cases hcapacity : o.capacity with
  | none => exact ⟨rfl, fun _ => rfl⟩
  | some n =>
    simp only [hcapacity, Option.any_some, decide_eq_false_iff_not, List.length_take] at h
    refine ⟨List.take_of_length_le (by omega), fun text => List.take_of_length_le ?_⟩
    rw [List.length_append, List.length_singleton]
    omega

/-- Where it is reached, no text is kept in addition. -/
theorem keep_of_full (henabled : o.enabled = true)
    (h : (o.capacity.any fun n => n ≤ (o.keep texts).length) = true) (text : String) :
    o.keep (texts ++ [text]) = o.keep texts := by
  unfold keep at h ⊢
  rw [henabled] at h ⊢
  cases hcapacity : o.capacity with
  | none => rw [hcapacity] at h; cases h
  | some n =>
    simp only [hcapacity, Option.any_some, decide_eq_true_eq, List.length_take] at h
    exact List.take_append_of_le_length (by omega)

end Options

/-! ## Requests -/

variable {c d : Cache} {texts : List String}

theorem isFull_eq (h : c.texts = c.options.keep texts) :
    c.isFull = c.options.capacity.any fun n => n ≤ (c.options.keep texts).length := by
  rw [isFull, size_eq_length, h]

/-- **One request more.**  If the first of some texts are stored, so are they
    when the text that is asked for has been put to them as a new one. -/
theorem Gets.texts_eq (h : c.texts = c.options.keep texts) {text : String}
    {x : Except Error Shared} (hgets : Gets c text x d) :
    d.texts = c.options.keep
      (if (Formula.parse text).isOk = true ∧ text ∉ texts then texts ++ [text] else texts) := by
  cases hgets with
  | found _ hfind =>
    have hmem : text ∈ c.texts := List.mem_map.2 ⟨_, mem_of_find? hfind, rfl⟩
    rw [h] at hmem
    rw [if_neg fun hnew => hnew.2 ((c.options.keep_isPrefix texts).subset hmem), h]
  | @stored f henabled hfind hfull hparse =>
    rw [isFull_eq h] at hfull
    obtain ⟨hall, hroom⟩ := Options.keep_of_not_full henabled hfull
    rw [hall] at h
    have hnew : text ∉ texts := h ▸ find?_eq_none_iff.1 hfind
    rw [if_pos ⟨by rw [hparse]; rfl, hnew⟩, hroom, ← h]
    exact List.map_append
  | passed hnone =>
    show c.texts = _
    by_cases henabled : c.options.enabled = true
    · obtain ⟨-, hfull⟩ := hnone henabled
      rw [isFull_eq h] at hfull
      split
      · rw [Options.keep_of_full henabled hfull, h]
      · exact h
    · rw [h, Options.keep_of_disabled henabled, Options.keep_of_disabled henabled]
  | failed _ hparse =>
    rw [if_neg fun hnew => by rw [hparse] at hnew; cases hnew.1]
    exact h

/-- What cannot be read leaves no trace. -/
theorem Gets.entries_eq {text : String} {x : Except Error Shared} (hgets : Gets c text x d)
    {e : Error} (hparse : Formula.parse text = .error e) : d.entries = c.entries := by
  cases hgets with
  | found => rfl
  | stored _ _ _ hok | passed _ hok =>
    rw [hparse] at hok
    cases hok
  | failed => rfl

/-- **One call more** changes what is stored as it changes what should be. -/
theorem texts_next {o : Options} {calls : List Call} (ho : c.options = o)
    (h : c.texts = stored o calls) (call : Call) :
    (c.next call).texts = stored o (calls ++ [call]) := by
  subst ho
  -- a request, whether for a formula or for a value
  have hget (call : Call) (text : String) (htext : call.text? = some text) (hne : call ≠ .clear) :
      (c.get text).2.texts = stored c.options (calls ++ [call]) := by
    rw [(gets_get c text).texts_eq h, stored, sinceClear_concat calls hne, readable_concat _ htext]
  have hlook (call : Call) (htext : call.text? = none) (hne : call ≠ .clear) :
      c.texts = stored c.options (calls ++ [call]) := by
    rw [h, stored, stored, sinceClear_concat calls hne, readable_concat_of_none _ htext]
  cases call with
  | get text => exact hget _ text rfl nofun
  | evaluate text v => exact hget _ text rfl nofun
  | contains text => exact hlook _ rfl nofun
  | size => exact hlook _ rfl nofun
  | isEmpty => exact hlook _ rfl nofun
  | clear =>
    rw [stored, sinceClear_clear]
    exact c.options.keep_nil.symm

/-- **What is stored is what should be**, after any calls. -/
theorem texts_after (o : Options) (calls : List Call) :
    ((new o).after calls).texts = stored o calls := by
  induction calls using List.reverseRecOn with
  | nil => exact o.keep_nil.symm
  | append_singleton calls call ih =>
    rw [after_append]
    exact texts_next (options_after ..) ih call

/-! ## What can be seen of it -/

/-- Just these texts are found in the cache, and as many are counted. -/
structure Holds (c : Cache) (texts : List String) : Prop where
  nodup : texts.Nodup
  contains_iff : ∀ text, c.contains text = true ↔ text ∈ texts
  size_eq : c.size = texts.length
  isEmpty_iff : c.isEmpty = true ↔ texts = []

theorem holds_texts {texts : List String} (h : c.texts = texts) (hnodup : texts.Nodup) :
    c.Holds texts := by
  refine ⟨hnodup, fun text => ?_, ?_, ?_⟩
  · rw [contains_iff, ← h]
    rfl
  · rw [size_eq_length, h]
  · rw [← h, isEmpty, List.isEmpty_iff, Cache.texts, List.map_eq_nil_iff]

/-- **The contents of a cache**, after any calls.  They are the first texts
    that have been asked for and can be read, since it was last cleared, as
    many as there is room for, and none if the cache is disabled.  So the
    capacity is never exceeded, nothing that is stored goes away or is
    replaced but by clearing, what cannot be read leaves no trace, and what is
    computed makes no difference. -/
theorem contents_after (o : Options) (calls : List Call) :
    ((new o).after calls).Holds (stored o calls) ∧
    (o.enabled = false → ((new o).after calls).entries = []) ∧
    (∀ n, o.capacity = some n → ((new o).after calls).size ≤ n) ∧
    (∀ call, call ≠ .clear →
      ((new o).after calls).entries <+: (((new o).after calls).next call).entries) ∧
    (∀ text e, Formula.parse text = .error e → ∀ call, call.text? = some text →
      (((new o).after calls).next call).entries = ((new o).after calls).entries) ∧
    ∀ text v, ((new o).after calls).next (.evaluate text v) =
      ((new o).after calls).next (.get text) := by
  have htexts := texts_after o calls
  have hnodup : (stored o calls).Nodup :=
    (nodup_eraseDups _).sublist (o.keep_isPrefix _).sublist
  have hholds := holds_texts htexts hnodup
  refine ⟨hholds, fun hdisabled => ?_, fun n hn => ?_, fun call hne => ?_, ?_, ?_⟩
  · refine ((Sound.new o).after calls).idle ?_
    rw [options_after]
    exact hdisabled
  · rw [hholds.size_eq]
    exact Options.length_keep_le hn _
  · exact (grows_next _ hne).isPrefix
  · intro text e hparse call htext
    cases call with
    | get => cases htext; exact (gets_get _ text).entries_eq hparse
    | evaluate => cases htext; exact (gets_get _ text).entries_eq hparse
    | contains | size | isEmpty | clear => cases htext
  · intro text v
    rfl

/-- A cache that is full with a formula whose value cannot be computed. -/
theorem contents_after_full :
    let c := (new ⟨true, some 1⟩).after
      [.get "b", .clear, .evaluate "a/b" .empty, .get "(a", .get "b"]
    c.Holds ["a/b"] ∧ c.size ≤ 1 ∧ c.entries <+: (c.next (.get "b")).entries ∧
      (c.next (.get "(a")).entries = c.entries ∧
      ((new ⟨false, none⟩).after [.get "b"]).entries = [] := by
  intro c
  have hb : Formula.parse "b" = .ok (.leaf (.var "b")) := by cbv
  have hab : Formula.parse "a/b" = .ok (.binary .div (.leaf (.var "a")) (.leaf (.var "b"))) := by
    cbv
  have hopen : Formula.parse "(a" = .error (.lexical (.unbalanced [.notEnoughClosing])) := by cbv
  have hstored : stored ⟨true, some 1⟩
      [.get "b", .clear, .evaluate "a/b" .empty, .get "(a", .get "b"] = ["a/b"] := by
    have hreadable : readable [.evaluate "a/b" .empty, .get "(a", .get "b"] = ["a/b", "b"] := by
      simp [readable, Call.text?, hb, hab, hopen, Except.isOk, Except.toBool, List.eraseDups_cons]
    simp [stored, sinceClear, List.rtakeWhile, hreadable, Options.keep]
  obtain ⟨hholds, -, hsize, hkept, hfailed, -⟩ := contents_after ⟨true, some 1⟩
    [.get "b", .clear, .evaluate "a/b" .empty, .get "(a", .get "b"]
  rw [hstored] at hholds
  exact ⟨hholds, hsize 1 rfl, hkept (.get "b") (by simp), hfailed "(a" _ hopen (.get "(a") rfl,
    (contents_after ⟨false, none⟩ [.get "b"]).2.1 rfl⟩

end Cache

end Reckon
