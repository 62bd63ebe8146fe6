/-
  Reckon — settings, the values of variables read from texts.

  A setting is a text with an `=`: a name and a number around the first one,
  with blanks around them.

  * `Text.Trims`: a text without the blanks at its ends, told without
    computing it (`trims_iff`);
  * `Setting.Names`, `Setting.Gives`: the name of a setting and its value;
  * `Setting.Rejected`: what is reported of a setting that is not read;
  * `readSettings_concat`: reading one setting more.  So a name has the value
    of the last setting of this name (`get?_eq_some_iff`), and the order of
    settings counts only where names are the same (`evaluate_of_perm`);
  * `settings_read` puts this together.
-/
import Reckon.Proofs.Dependence
import Reckon.Proofs.Runs

namespace Reckon

/-! ## Blanks -/

namespace Text

/-- Whether a text is another one without the blanks at its two ends. -/
structure Trims (s t : String) : Prop where
  blanks : ∃ before behind : List Char, s.toList = before ++ (t.toList ++ behind) ∧
    (∀ c ∈ before, isBlank c = true) ∧ ∀ c ∈ behind, isBlank c = true
  first : ∀ c ∈ t.toList.head?, isBlank c = false
  last : ∀ c ∈ t.toList.getLast?, isBlank c = false

theorem trims_trim (s : String) : Trims s (trim s) := by
  have hleft := List.takeWhile_append_dropWhile (p := isBlank) (l := s.toList)
  have hright := List.takeWhile_append_dropWhile (p := isBlank)
    (l := (s.toList.dropWhile isBlank).reverse)
  rw [← List.reverse_inj, List.reverse_append, List.reverse_reverse] at hright
  have hlist : (trim s).toList =
      ((s.toList.dropWhile isBlank).reverse.dropWhile isBlank).reverse := String.toList_ofList
  rw [← hlist] at hright
  refine ⟨⟨_, _, by rw [hright, hleft], fun c hc => List.mem_takeWhile_imp hc, fun c hc =>
    List.mem_takeWhile_imp (List.mem_reverse.1 hc)⟩, fun c hc => ?_, ?_⟩
  · have hhead : c ∈ (s.toList.dropWhile isBlank).head? := by
      rw [← hright, List.head?_append, Option.mem_def.1 hc]
      rfl
    exact head_dropWhile_eq_false c hhead
  · rw [hlist, List.getLast?_reverse]
    exact head_dropWhile_eq_false

theorem Trims.eq_trim {s t : String} (h : Trims s t) : t = trim s := by
  obtain ⟨⟨before, behind, hs, hbefore, hbehind⟩, hfirst, hlast⟩ := h
  apply String.toList_injective
  rw [trim, String.toList_ofList, hs]
  cases ht : t.toList with
  | nil =>
    -- then there is nothing but blanks
    have hall : behind.dropWhile isBlank = [] := List.dropWhile_eq_nil_iff.2 hbehind
    rw [List.nil_append, List.dropWhile_append_of_pos hbefore, hall]
    rfl
  | cons c cs =>
    rw [ht] at hfirst hlast
    have hhead : ∀ d ∈ (c :: cs ++ behind).head?, isBlank d = false := hfirst
    rw [dropWhile_append_stop hbefore hhead, List.reverse_append, dropWhile_append_stop,
      List.reverse_reverse]
    · exact fun d hd => hbehind d (List.mem_reverse.1 hd)
    · rwa [List.head?_reverse]

/-- **Trimming takes the blanks at both ends away**, and nothing else. -/
theorem trims_iff {s t : String} : Trims s t ↔ t = trim s :=
  ⟨Trims.eq_trim, fun h => h ▸ trims_trim s⟩

end Text

/-! ## One setting -/

namespace Setting

/-- What is before and behind the first `=` of a text. -/
structure Parts (setting before behind : String) : Prop where
  text_eq : setting = before ++ "=" ++ behind
  first : '=' ∉ before.toList

/-- The name that a setting is for. -/
def Names (setting name : String) : Prop :=
  ∃ before behind, Parts setting before behind ∧ Text.Trims before name

/-- The name that a setting is for, and the number that it gives to it. -/
def Gives (setting name : String) (x : Binary64) : Prop :=
  ∃ before behind number, Parts setting before behind ∧ Text.Trims before name ∧
    Text.Trims behind number ∧ Binary64.read number = .ok x

/-- What is reported of a setting that gives no number to a name. -/
inductive Rejected (setting : String) : String → Prop
  | noEquals : '=' ∉ setting.toList →
      Rejected setting ("Error: " ++ ("Binding '" ++ setting ++ "' must look like name=value") ++
        "\n")
  | noNumber {before behind number : String} {fault : NumberFault} :
      Parts setting before behind → Text.Trims behind number →
      Binary64.read number = .error fault →
      Rejected setting (causedReport ("Invalid value for '" ++ before ++ "'") fault.message)

theorem Gives.names {setting name : String} {x : Binary64} (h : Gives setting name x) :
    Names setting name := by
  obtain ⟨before, behind, -, hparts, hname, -⟩ := h
  exact ⟨before, behind, hparts, hname⟩

theorem Parts.toList_eq {setting before behind : String} (h : Parts setting before behind) :
    setting.toList = before.toList ++ '=' :: behind.toList := by
  rw [h.text_eq, toList_around_equals]

theorem Parts.takeWhile_eq {setting before behind : String} (h : Parts setting before behind) :
    String.ofList (setting.toList.takeWhile (· ≠ '=')) = before := by
  rw [h.toList_eq, takeWhile_ne_append h.first, String.ofList_toList]

theorem exists_parts {setting : String} (h : '=' ∈ setting.toList) :
    ∃ before behind, Parts setting before behind := by
  obtain ⟨before, behind, htext, hbefore⟩ := List.eq_append_cons_of_mem h
  exact ⟨String.ofList before, String.ofList behind, text_eq_ofList htext,
    by rwa [String.toList_ofList]⟩

theorem names_iff {setting name : String} :
    Names setting name ↔ '=' ∈ setting.toList ∧
      name = Text.trim (String.ofList (setting.toList.takeWhile (· ≠ '='))) := by
  constructor
  · rintro ⟨before, behind, hparts, hname⟩
    refine ⟨?_, by rw [hparts.takeWhile_eq, hname.eq_trim]⟩
    rw [hparts.toList_eq]
    exact List.mem_append_right _ (List.mem_cons_self ..)
  · rintro ⟨hmem, rfl⟩
    obtain ⟨before, behind, hparts⟩ := exists_parts hmem
    rw [hparts.takeWhile_eq]
    exact ⟨before, behind, hparts, Text.trims_trim before⟩

theorem Names.eq {setting name name' : String} (h : Names setting name)
    (h' : Names setting name') : name' = name :=
  (names_iff.1 h').2.trans (names_iff.1 h).2.symm

end Setting

open Setting

theorem readSetting_of_parts {setting before behind : String} (h : Parts setting before behind) :
    readSetting setting = ((Binary64.read (Text.trim behind)).mapError (.badValue before)).map
      (Text.trim before, ·) := by
  unfold readSetting
  rw [h.takeWhile_eq, h.toList_eq, dropWhile_ne_append h.first]
  dsimp only
  rw [String.ofList_toList]
  cases Binary64.read (Text.trim behind) <;> rfl

theorem readSetting_of_not_mem {setting : String} (h : '=' ∉ setting.toList) :
    readSetting setting = .error (.notSetting setting) := by
  unfold readSetting
  rw [dropWhile_ne_eq_nil_iff.2 h]

/-- **A setting that is read** gives a number to its name. -/
theorem readSetting_eq_ok_iff {setting name : String} {x : Binary64} :
    readSetting setting = .ok (name, x) ↔ Gives setting name x := by
  constructor
  · intro h
    by_cases hmem : '=' ∈ setting.toList
    · obtain ⟨before, behind, hparts⟩ := exists_parts hmem
      rw [readSetting_of_parts hparts] at h
      cases hread : Binary64.read (Text.trim behind) with
      | error fault =>
        rw [hread] at h
        cases h
      | ok y =>
        rw [hread] at h
        cases h
        exact ⟨before, behind, _, hparts, Text.trims_trim _, Text.trims_trim _, hread⟩
    · rw [readSetting_of_not_mem hmem] at h
      cases h
  · rintro ⟨before, behind, number, hparts, hname, hnumber, hread⟩
    rw [hnumber.eq_trim] at hread
    rw [readSetting_of_parts hparts, hread, hname.eq_trim]
    rfl

theorem Setting.Gives.eq {setting name : String} {x y : Binary64} (h : Gives setting name x)
    (h' : Gives setting name y) : y = x := by
  have heq := (readSetting_eq_ok_iff.2 h).symm.trans (readSetting_eq_ok_iff.2 h')
  cases heq
  rfl

theorem readSetting_eq_error_iff {setting report : String} :
    (∃ failure, readSetting setting = .error failure ∧ failure.report = report) ↔
      Rejected setting report := by
  constructor
  · rintro ⟨failure, h, rfl⟩
    by_cases hmem : '=' ∈ setting.toList
    · obtain ⟨before, behind, hparts⟩ := exists_parts hmem
      rw [readSetting_of_parts hparts] at h
      cases hread : Binary64.read (Text.trim behind) with
      | error fault =>
        rw [hread] at h
        cases h
        exact .noNumber hparts (Text.trims_trim _) hread
      | ok y =>
        rw [hread] at h
        cases h
    · rw [readSetting_of_not_mem hmem] at h
      cases h
      exact .noEquals hmem
  · rintro (hmem | ⟨hparts, hnumber, hread⟩)
    · exact ⟨_, readSetting_of_not_mem hmem, rfl⟩
    · rw [hnumber.eq_trim] at hread
      refine ⟨.badValue _ _, ?_, rfl⟩
      rw [readSetting_of_parts hparts, hread]
      rfl

theorem exists_gives_iff {setting : String} :
    (∃ p, readSetting setting = .ok p) ↔ ∃ name x, Gives setting name x := by
  simp only [Prod.exists, readSetting_eq_ok_iff]

/-! ## All settings -/

/-- Reading one setting more. -/
theorem readSettings_concat (settings : List String) (setting : String) :
    readSettings (settings ++ [setting]) = do
      let v ← readSettings settings
      let p ← readSetting setting
      return v.set p.1 p.2 := by
  unfold readSettings
  rw [List.mapM_append, List.mapM_cons, List.mapM_nil]
  cases settings.mapM readSetting with
  | error failure => rfl
  | ok pairs =>
    cases readSetting setting with
    | error failure => rfl
    | ok p => exact congrArg Except.ok List.foldl_append

/-- The number that the last setting for a name gives to it. -/
def LastGives (settings : List String) (name : String) (x : Binary64) : Prop :=
  ∃ before setting later, settings = before ++ setting :: later ∧ Gives setting name x ∧
    ∀ s ∈ later, ¬ Names s name

theorem lastGives_concat {settings : List String} {setting name : String} {x : Binary64} :
    LastGives (settings ++ [setting]) name x ↔
      Gives setting name x ∨ ¬ Names setting name ∧ LastGives settings name x := by
  constructor
  · rintro ⟨before, s, later, h, hgives, hlater⟩
    rcases List.eq_nil_or_concat later with rfl | ⟨later, t, rfl⟩
    · obtain ⟨-, hs⟩ := List.append_inj' h rfl
      cases hs
      exact .inl hgives
    · rw [List.concat_eq_append] at h hlater
      obtain ⟨rfl, ht⟩ := List.append_inj' (h.trans (List.append_assoc before (s :: later) [t]).symm) rfl
      cases ht
      refine .inr ⟨hlater _ (List.mem_concat_self ..), before, s, later, rfl, hgives, ?_⟩
      exact fun u hu => hlater u (List.mem_append_left _ hu)
  · rintro (hgives | ⟨hnot, before, s, later, rfl, hgives, hlater⟩)
    · exact ⟨settings, setting, [], rfl, hgives, nofun⟩
    · refine ⟨before, s, later ++ [setting], by simp, hgives, fun t ht => ?_⟩
      rcases List.mem_append.1 ht with ht | ht
      · exact hlater t ht
      · rwa [List.mem_singleton.1 ht]

/-- Reading one setting more, once it has succeeded. -/
theorem readSettings_concat_eq_ok {settings : List String} {setting : String} {v : Valuation}
    (h : readSettings (settings ++ [setting]) = .ok v) :
    ∃ u name x, readSettings settings = .ok u ∧ Gives setting name x ∧ v = u.set name x := by
  rw [readSettings_concat] at h
  obtain ⟨u, hu, h⟩ := bind_eq_ok.1 h
  obtain ⟨⟨name, x⟩, hp, h⟩ := bind_eq_ok.1 h
  cases h
  exact ⟨u, name, x, hu, readSetting_eq_ok_iff.1 hp, rfl⟩

/-- **The last setting for a name wins.** -/
theorem get?_eq_some_iff {settings : List String} {v : Valuation}
    (h : readSettings settings = .ok v) {name : String} {x : Binary64} :
    v.get? name = some x ↔ LastGives settings name x := by
  induction settings using List.reverseRecOn generalizing v with
  | nil =>
    cases h
    refine iff_of_false (by rintro ⟨⟩) ?_
    rintro ⟨before, setting, later, hnil, -⟩
    simp at hnil
  | append_singleton settings setting ih =>
    obtain ⟨u, m, y, hu, hgives, rfl⟩ := readSettings_concat_eq_ok h
    rw [lastGives_concat, ← ih hu, Valuation.get?, Valuation.set, lookup_setEntry]
    by_cases hname : name = m
    · subst hname
      rw [if_pos rfl, Option.some.injEq]
      constructor
      · rintro rfl
        exact .inl hgives
      · rintro (hgives' | ⟨hnot, -⟩)
        · exact hgives'.eq hgives
        · exact absurd hgives.names hnot
    · rw [if_neg hname, ← Valuation.get?]
      constructor
      · exact fun hget => .inr ⟨fun hnames => hname (hgives.names.eq hnames), hget⟩
      · rintro (hgives' | ⟨-, hget⟩)
        · exact absurd (hgives.names.eq hgives'.names) hname
        · exact hget

/-- The names that have a value are those of the settings. -/
theorem contains_iff_names {settings : List String} {v : Valuation}
    (h : readSettings settings = .ok v) {name : String} :
    v.contains name = true ↔ ∃ s ∈ settings, Names s name := by
  induction settings using List.reverseRecOn generalizing v with
  | nil =>
    cases h
    exact iff_of_false (by rintro ⟨⟩) nofun
  | append_singleton settings setting ih =>
    obtain ⟨u, m, y, hu, hgives, rfl⟩ := readSettings_concat_eq_ok h
    have hnames : Names setting name ↔ name = m :=
      ⟨hgives.names.eq, fun heq => heq ▸ hgives.names⟩
    simp only [List.mem_append, List.mem_singleton, or_and_right, exists_or, exists_eq_left, hnames,
      ← ih hu]
    rw [Valuation.contains, Valuation.get?, Valuation.set, lookup_setEntry]
    by_cases hname : name = m
    · simp [hname]
    · simp [hname, Valuation.contains, Valuation.get?]

/-! ## The order of settings -/

/-- Two settings that are not for one name. -/
def Setting.Apart (s t : String) : Prop :=
  ∀ name, Names s name → ¬ Names t name

theorem Setting.Apart.symm {s t : String} (h : Apart s t) : Apart t s :=
  fun name ht hs => h name hs ht

theorem lastGives_of_pairwise {settings : List String} (h : settings.Pairwise Apart)
    {name : String} {x : Binary64} :
    LastGives settings name x ↔ ∃ s ∈ settings, Gives s name x := by
  constructor
  · rintro ⟨before, s, later, rfl, hgives, -⟩
    exact ⟨s, List.mem_append_right _ (List.mem_cons_self ..), hgives⟩
  · rintro ⟨s, hs, hgives⟩
    obtain ⟨before, later, rfl⟩ := List.append_of_mem hs
    have hlater := (List.pairwise_cons.1 (List.pairwise_append.1 h).2.1).1
    exact ⟨before, s, later, rfl, hgives, fun t ht => hlater t ht name hgives.names⟩

/-- **Settings for different names** may be given in any order. -/
theorem evaluate_of_perm {settings settings' : List String} (hperm : settings'.Perm settings)
    (hapart : settings.Pairwise Apart) {v : Valuation} (h : readSettings settings = .ok v) :
    ∃ v', readSettings settings' = .ok v' ∧ ∀ f : Formula, f.evaluate v' = f.evaluate v := by
  have hall : AllRead settings' := fun s hs =>
    exists_readSettings_iff.1 ⟨v, h⟩ s (hperm.mem_iff.1 hs)
  obtain ⟨v', h'⟩ := exists_readSettings_iff.2 hall
  have hapart' : settings'.Pairwise Apart :=
    (hperm.pairwise_iff fun hst => hst.symm).2 hapart
  have hget (name : String) : v'.get? name = v.get? name := by
    refine Option.ext fun x => ?_
    rw [get?_eq_some_iff h', get?_eq_some_iff h, lastGives_of_pairwise hapart',
      lastGives_of_pairwise hapart]
    simp only [hperm.mem_iff]
  exact ⟨v', h', fun f => evaluate_congr fun name _ => hget name⟩

/-- **Settings are read** if each of them has an `=` and, but for blanks, a
    number behind the first one.  Then the names of the settings have values,
    each that of the last setting for it, and no formula has another value if
    settings for different names are given in another order.  If settings are
    not read, what is reported is what the first of them is rejected for. -/
theorem settings_read (settings : List String) :
    ((∃ v, readSettings settings = .ok v) ↔ ∀ s ∈ settings, ∃ name x, Gives s name x) ∧
    (∀ v, readSettings settings = .ok v →
      (∀ name, v.contains name = true ↔ ∃ s ∈ settings, Names s name) ∧
      (∀ name x, v.get? name = some x ↔ LastGives settings name x) ∧
      (settings.Pairwise Apart → ∀ settings', settings'.Perm settings →
        ∃ v', readSettings settings' = .ok v' ∧ ∀ f : Formula, f.evaluate v' = f.evaluate v)) ∧
    ∀ report, (∃ failure, readSettings settings = .error failure ∧ failure.report = report) ↔
      ∃ before s later, settings = before ++ s :: later ∧
        (∀ t ∈ before, ∃ name x, Gives t name x) ∧ Rejected s report := by
  have hread (ss : List String) : AllRead ss ↔ ∀ s ∈ ss, ∃ name x, Gives s name x :=
    forall₂_congr fun _ _ => exists_gives_iff
  refine ⟨exists_readSettings_iff.trans (hread settings), fun v h => ⟨fun name => ?_,
    fun name x => ?_, fun hapart settings' hperm => ?_⟩, fun report => ⟨?_, ?_⟩⟩
  · exact contains_iff_names h
  · exact get?_eq_some_iff h
  · exact evaluate_of_perm hperm hapart h
  · rintro ⟨failure, h, hreport⟩
    obtain ⟨before, s, later, rfl, hbefore, hs⟩ := readSettings_eq_error_iff.1 h
    exact ⟨before, s, later, rfl, (hread before).1 hbefore,
      readSetting_eq_error_iff.1 ⟨failure, hs, hreport⟩⟩
  · rintro ⟨before, s, later, rfl, hbefore, hrejected⟩
    obtain ⟨failure, hs, hreport⟩ := readSetting_eq_error_iff.2 hrejected
    exact ⟨failure, readSettings_eq_error_iff.2 ⟨before, s, later, rfl, (hread before).2 hbefore, hs⟩,
      hreport⟩

/-- A name that is the same as one before but for blanks, and two names in the
    other order. -/
theorem settings_read_blanks :
    (∃ v, readSettings ["x=inf", "\u00a0x =nan\t"] = .ok v ∧ v.get? "x" = some .nan ∧
      LastGives ["x=inf", "\u00a0x =nan\t"] "x" .nan) ∧
    ∃ v, readSettings ["x=inf", "y=-inf"] = .ok v ∧ ["x=inf", "y=-inf"].Pairwise Apart ∧
      ["y=-inf", "x=inf"].Perm ["x=inf", "y=-inf"] ∧
      ∃ v', readSettings ["y=-inf", "x=inf"] = .ok v' ∧
        ∀ f : Formula, f.evaluate v' = f.evaluate v := by
  have hx : readSetting "x=inf" = .ok ("x", .infinite false) := by cbv
  have hnan : readSetting "\u00a0x =nan\t" = .ok ("x", .nan) := by cbv
  have hy : readSetting "y=-inf" = .ok ("y", .infinite true) := by cbv
  have htwice : readSettings ["x=inf", "\u00a0x =nan\t"] =
      .ok (.ofList [("x", .infinite false), ("x", .nan)]) := by
    rw [readSettings, List.mapM_cons, hx, List.mapM_cons, hnan]
    rfl
  have hboth : readSettings ["x=inf", "y=-inf"] =
      .ok (.ofList [("x", .infinite false), ("y", .infinite true)]) := by
    rw [readSettings, List.mapM_cons, hx, List.mapM_cons, hy]
    rfl
  have hapart : Apart "x=inf" "y=-inf" := fun name hname hname' => by
    have hxy := (readSetting_eq_ok_iff.1 hx).names.eq hname
    rw [(readSetting_eq_ok_iff.1 hy).names.eq hname'] at hxy
    exact absurd hxy (by decide)
  have hpairwise : ["x=inf", "y=-inf"].Pairwise Apart :=
    .cons (List.forall_mem_singleton.2 hapart) (List.pairwise_singleton _ _)
  have hperm : ["y=-inf", "x=inf"].Perm ["x=inf", "y=-inf"] := .swap _ _ _
  exact ⟨⟨_, htwice, rfl, (((settings_read _).2.1 _ htwice).2.1 _ _).1 rfl⟩,
    _, hboth, hpairwise, hperm, ((settings_read _).2.1 _ hboth).2.2 hpairwise _ hperm⟩

end Reckon
