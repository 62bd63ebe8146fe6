/-
  Reckon — one operator, several times.

  Where one of `+`, `-` and `*` joins several formulas, they are grouped from
  the right as long as they are bare atoms.  One inside that is more than this
  ends a run: all up to it is the first operand of what follows.

  * `Form.fold` groups items that one operator joins; `exists_cut` and
    `fold_cut` tell its last run from what is before it;
  * `bare_of_fold_eq`: what comes out tells which of the items are bare, so
    that no other items give the same;
  * `Written.joined` writes formulas with one operator between them, which are
    such items if none of them binds less (`Written.Joins`, `exists_items`);
  * `parse_joined`: what the text of such formulas is parsed as.
-/
import Reckon.Proofs.Conventional

namespace Reckon

variable {α β : Type}

/-! ## Grouping from the right -/

namespace Expr

/-- An expression and others behind it, joined by one operator from the right. -/
def nest (op : BinaryOp) (e : Expr α) : List (Expr α) → Expr α
  | [] => e
  | f :: fs => .binary op e (nest op f fs)

theorem leaves_nest (op : BinaryOp) (e : Expr α) (es : List (Expr α)) :
    (nest op e es).leaves = e.leaves ++ es.flatMap Expr.leaves := by
  induction es generalizing e with
  | nil => simp [nest]
  | cons f es ih => simp [nest, Expr.leaves, ih]

theorem leaves_ne_nil (e : Expr α) : e.leaves ≠ [] := by
  induction e with
  | leaf => simp [leaves]
  | negate e ih => exact ih
  | binary op l r ihl _ => simp [leaves, ihl]

end Expr

namespace Form

variable (F : Form α β)

/-- An expression and items behind it, all joined by `op`, grouped as in a
    chain. -/
def fold (op : BinaryOp) (e : Expr α) (xs : List β) : Expr α :=
  ((xs.map (op, ·)).splitBy F.sameRun).foldl F.groupRight e

variable {F} {op : BinaryOp}

theorem groupRight_eq_nest (e : Expr α) (xs : List β) :
    F.groupRight e (xs.map (op, ·)) = e.nest op (xs.map F.expr) := by
  induction xs generalizing e with
  | nil => rfl
  | cons x xs ih => simp only [List.map_cons, groupRight, Expr.nest, ih]

/-- Bare items stay in one run. -/
theorem fold_of_bare (hop : op ≠ .div) {xs : List β} (h : ∀ x ∈ xs.dropLast, F.bare x = true)
    (e : Expr α) : F.fold op e xs = e.nest op (xs.map F.expr) := by
  by_cases hxs : xs = []
  · subst hxs
    rfl
  have hchain : (xs.map (op, ·)).IsChain fun l m => F.sameRun l m = true := by
    rw [List.isChain_map]
    refine List.isChain_iff_forall_rel_of_append_cons_cons.2 fun x y before behind hsplit => ?_
    have hx : F.bare x = true := h x (by simp [hsplit, List.dropLast_append_of_ne_nil])
    simp [sameRun, hop, hx]
  rw [fold, List.splitBy_of_isChain (by simpa using hxs) hchain]
  exact groupRight_eq_nest e xs

/-- **An item that is not bare ends a run**: all up to it is the first operand
    of what follows. -/
theorem fold_append {xs : List β} (h : ∀ x ∈ xs.getLast?, F.bare x = false) (e : Expr α)
    (ys : List β) : F.fold op e (xs ++ ys) = F.fold op (F.fold op e xs) ys := by
  have hsplit : ((xs ++ ys).map (op, ·)).splitBy F.sameRun =
      (xs.map (op, ·)).splitBy F.sameRun ++ (ys.map (op, ·)).splitBy F.sameRun := by
    rw [List.map_append]
    refine List.splitBy_append fun l hl m _ => ?_
    rw [List.getLast?_map] at hl
    obtain ⟨x, hx, rfl⟩ := Option.map_eq_some_iff.1 hl
    simp [sameRun, h x hx]
  rw [fold, hsplit, List.foldl_append]
  rfl

/-- Items are cut behind the last one inside that is not bare. -/
theorem exists_cut (F : Form α β) {xs : List β} (h : xs ≠ []) :
    ∃ before run, xs = before ++ run ∧ run ≠ [] ∧ (∀ x ∈ before.getLast?, F.bare x = false) ∧
      ∀ x ∈ run.dropLast, F.bare x = true := by
  refine ⟨xs.dropLast.rdropWhile F.bare, xs.dropLast.rtakeWhile F.bare ++ [xs.getLast h], ?_,
    by simp, ?_, ?_⟩
  · rw [← List.append_assoc, List.rdropWhile_append_rtakeWhile, List.dropLast_append_getLast]
  · intro x hx
    have hne : xs.dropLast.rdropWhile F.bare ≠ [] := by
      rintro hnil
      simp [hnil] at hx
    rw [List.getLast?_eq_some_getLast hne] at hx
    rw [← Option.some.inj hx]
    exact Bool.eq_false_iff.2 (List.rdropWhile_last_not F.bare _ hne)
  · intro x hx
    rw [List.dropLast_concat] at hx
    exact List.mem_rtakeWhile_imp hx

theorem fold_cut (hop : op ≠ .div) {before run : List β}
    (hbefore : ∀ x ∈ before.getLast?, F.bare x = false)
    (hrun : ∀ x ∈ run.dropLast, F.bare x = true) (e : Expr α) :
    F.fold op e (before ++ run) = (F.fold op e before).nest op (run.map F.expr) := by
  rw [fold_append hbefore, fold_of_bare hop hrun]

theorem leaves_fold (hop : op ≠ .div) (e : Expr α) (xs : List β) :
    (F.fold op e xs).leaves = e.leaves ++ xs.flatMap fun x => (F.expr x).leaves := by
  by_cases h : xs = []
  · subst h
    simp [fold]
  obtain ⟨before, run, rfl, hrun, hend, hbare⟩ := exists_cut F h
  have hless : before.length < (before ++ run).length := by
    simpa using List.length_pos_iff.2 hrun
  rw [fold_cut hop hend hbare, Expr.leaves_nest, leaves_fold hop e before]
  simp [List.flatMap_map]
termination_by xs.length

/-- Where two lists of expressions begin with parts that have the same leaves,
    these parts are the same. -/
theorem eq_of_leaves_eq {es fs es' fs' : List (Expr α)} (h : es ++ es' = fs ++ fs')
    (hleaves : es.flatMap Expr.leaves = fs.flatMap Expr.leaves) : es = fs := by
  have key {es fs more : List (Expr α)} (hfs : fs = es ++ more)
      (hleaves : es.flatMap Expr.leaves = fs.flatMap Expr.leaves) : es = fs := by
    rw [hfs, List.flatMap_append, List.self_eq_append_right, List.flatMap_eq_nil_iff] at hleaves
    cases more with
    | nil => simp [hfs]
    | cons e more => exact absurd (hleaves e (List.mem_cons_self ..)) e.leaves_ne_nil
  rcases List.append_eq_append_iff.1 h with ⟨more, hfs, -⟩ | ⟨more, hes, -⟩
  · exact key hfs hleaves
  · exact (key hes hleaves.symm).symm

/-- **What a chain stands for tells its runs.**  Items that stand for the same
    give the same only if the same of them, but for the last one, are bare. -/
theorem bare_of_fold_eq (hop : op ≠ .div) {e : Expr α} {xs ys : List β}
    (hexpr : xs.map F.expr = ys.map F.expr) (h : F.fold op e xs = F.fold op e ys) :
    xs.dropLast.map F.bare = ys.dropLast.map F.bare := by
  by_cases hxs : xs = []
  · have hys : ys = [] := by simpa [hxs] using hexpr
    rw [hxs, hys]
  have hys : ys ≠ [] := by
    rintro rfl
    simp [hxs] at hexpr
  obtain ⟨before, run, rfl, hrun, hend, hbare⟩ := exists_cut F hxs
  obtain ⟨before', run', rfl, hrun', hend', hbare'⟩ := exists_cut F hys
  have hless : before.length < (before ++ run).length := by
    simpa using List.length_pos_iff.2 hrun
  rw [fold_cut hop hend hbare, fold_cut hop hend' hbare'] at h
  have hfold : F.fold op e before = F.fold op e before' := by
    obtain ⟨z, zs, rfl⟩ := List.exists_cons_of_ne_nil hrun
    obtain ⟨z', zs', rfl⟩ := List.exists_cons_of_ne_nil hrun'
    exact (Expr.binary.inj h).2.1
  have hsame : before.map F.expr = before'.map F.expr := by
    rw [List.map_append, List.map_append] at hexpr
    have hleaves := congrArg Expr.leaves hfold
    rw [leaves_fold hop, leaves_fold hop, List.append_cancel_left_eq] at hleaves
    exact eq_of_leaves_eq hexpr (by simpa [List.flatMap_map] using hleaves)
  have ih := bare_of_fold_eq hop hsame hfold
  have hlen : before.length = before'.length := by simpa using congrArg List.length hsame
  have hlen' : run.length = run'.length := by
    have := congrArg List.length hexpr
    simp at this
    omega
  have hinside : run.dropLast.map F.bare = run'.dropLast.map F.bare := by
    rw [List.map_eq_replicate_iff.2 hbare, List.map_eq_replicate_iff.2 hbare', List.length_dropLast,
      List.length_dropLast, hlen']
  -- the item before a run is not bare
  have hends : before.map F.bare = before'.map F.bare := by
    rcases before.eq_nil_or_concat with rfl | ⟨init, z, rfl⟩
    · rw [List.eq_nil_of_length_eq_zero hlen.symm]
    rcases before'.eq_nil_or_concat with rfl | ⟨init', z', rfl⟩
    · simp at hlen
    have hz : F.bare z = F.bare z' := by
      rw [hend z (by simp), hend' z' (by simp)]
    simpa [hz] using ih
  rw [List.dropLast_append_of_ne_nil hrun, List.dropLast_append_of_ne_nil hrun', List.map_append,
    List.map_append, hends, hinside]
termination_by xs.length

/-- **What a chain stands for is told by its runs**, that is by what its items
    stand for and which of them, but for the last one, are bare. -/
theorem fold_congr (hop : op ≠ .div) {e : Expr α} {xs ys : List β}
    (hexpr : xs.map F.expr = ys.map F.expr)
    (hbare : xs.dropLast.map F.bare = ys.dropLast.map F.bare) : F.fold op e xs = F.fold op e ys := by
  by_cases hxs : xs = []
  · have hys : ys = [] := by simpa [hxs] using hexpr
    rw [hxs, hys]
  obtain ⟨before, run, rfl, hrun, hend, hinside⟩ := exists_cut F hxs
  have hless : before.length < (before ++ run).length := by
    simpa using List.length_pos_iff.2 hrun
  rw [List.map_append] at hexpr
  obtain ⟨before', run', rfl, hbefore, hsame⟩ := List.map_eq_append_iff.1 hexpr.symm
  have hrun' : run' ≠ [] := by
    rintro rfl
    simp [hrun] at hsame
  rw [List.dropLast_append_of_ne_nil hrun, List.dropLast_append_of_ne_nil hrun', List.map_append,
    List.map_append] at hbare
  obtain ⟨hends, hins⟩ := List.append_inj hbare (by simpa using (congrArg List.length hbefore).symm)
  have hend' : ∀ x ∈ before'.getLast?, F.bare x = false := by
    intro x hx
    have hlast := congrArg List.getLast? hends
    rw [List.getLast?_map, List.getLast?_map, Option.mem_def.1 hx] at hlast
    obtain ⟨y, hy, hxy⟩ := Option.map_eq_some_iff.1 hlast
    rw [← hxy, hend y hy]
  have hinside' : ∀ x ∈ run'.dropLast, F.bare x = true := by
    intro x hx
    have hmem : F.bare x ∈ run.dropLast.map F.bare := hins ▸ List.mem_map_of_mem hx
    obtain ⟨y, hy, hxy⟩ := List.mem_map.1 hmem
    rw [← hxy, hinside y hy]
  have ih := fold_congr hop (e := e) hbefore.symm
    (by rw [List.map_dropLast, List.map_dropLast, hends])
  rw [fold_cut hop hend hinside, fold_cut hop hend' hinside', ih, hsame]
termination_by xs.length

/-! ## Terms of a level -/

theorem split_of_ops {x : β} {links : List (BinaryOp × β)}
    (h : ∀ l ∈ links, l.1 = .mul ∨ l.1 = .div) : Chain.split x links = ⟨⟨x, links⟩, []⟩ := by
  induction links generalizing x with
  | nil => rfl
  | cons l links ih =>
    obtain ⟨op, y⟩ := l
    have hop : op = .mul ∨ op = .div := h _ (List.mem_cons_self ..)
    rw [Chain.split, ih fun m hm => h m (List.mem_cons_of_mem _ hm)]
    simp [hop]

/-- The first operator that is not one of `*` and `/` ends the first term. -/
theorem split_append (hop : op = .add ∨ op = .sub) {x y : β} {links : List (BinaryOp × β)}
    (more : List (BinaryOp × β)) (h : ∀ l ∈ links, l.1 = .mul ∨ l.1 = .div) :
    Chain.split x (links ++ (op, y) :: more) =
      ⟨⟨x, links⟩, (op, (Chain.split y more).first) :: (Chain.split y more).links⟩ := by
  induction links generalizing x with
  | nil =>
    have hne : ¬ (op = .mul ∨ op = .div) := by
      rcases hop with rfl | rfl <;> simp
    simp [Chain.split, hne]
  | cons l links ih =>
    obtain ⟨op', z⟩ := l
    have hop' : op' = .mul ∨ op' = .div := h _ (List.mem_cons_self ..)
    rw [List.cons_append, Chain.split, ih fun m hm => h m (List.mem_cons_of_mem _ hm)]
    simp [hop']

end Form

/-! ## Formulas with one operator between them -/

namespace Written

/-- Whether a formula is a product, a quotient, a negation or an atom, so that
    no `+` and no binary `-` is outside of its parentheses. -/
def isTerm : Written α → Bool
  | operand _ | group _ => true
  | negate e => e.isTerm
  | binary op l r => (op = .mul || op = .div) && l.isTerm && r.isTerm

/-- Whether a formula is an atom behind any number of unary minus signs. -/
def isFactor : Written α → Bool
  | operand _ | group _ => true
  | negate e => e.isFactor
  | binary _ _ _ => false

/-- Formulas that can be joined by an operator which may be repeated: terms by
    `+` and `-`, and factors by `*`. -/
def Joins : BinaryOp → Written α → Prop
  | .add, e | .sub, e => e.isTerm = true
  | .mul, e => e.isFactor = true
  | .div, _ => False

/-- Formulas with one operator between them. -/
def joined (op : BinaryOp) (e : Written α) (es : List (Written α)) : Written α :=
  es.foldl (binary op) e

variable {op : BinaryOp} {e t u m : Written α} {es ms before behind : List (Written α)}

theorem ops_of_isTerm (h : e.isTerm = true) : ∀ l ∈ e.level.links, l.1 = .mul ∨ l.1 = .div := by
  induction e with
  | operand | group => simp [level]
  | negate e ih => exact ih h
  | binary op l r ihl ihr =>
    simp only [isTerm, Bool.and_eq_true, Bool.or_eq_true, decide_eq_true_eq] at h
    obtain ⟨⟨hop, hl⟩, hr⟩ := h
    intro m hm
    rcases List.mem_append.1 hm with hm | hm
    · exact ihl hl m hm
    · rcases List.mem_cons.1 hm with rfl | hm
      · exact hop
      · exact ihr hr m hm

theorem links_of_isFactor (h : e.isFactor = true) : e.level.links = [] := by
  induction e with
  | operand | group => rfl
  | negate e ih => exact ih h
  | binary => cases h

theorem level_joined : (joined op e es).level =
    ⟨e.level.first, e.level.links ++ es.flatMap fun u => (op, u.level.first) :: u.level.links⟩ := by
  induction es generalizing e with
  | nil => simp [joined]
  | cons u es ih =>
    rw [joined, List.foldl_cons, ← joined, ih]
    simp [level]

/-- A bare atom is an atom. -/
theorem bare_level (e : Written α) : Form.term.bare e.level = e.isAtom := by
  cases e with
  | operand | group => rfl
  | negate e => simp [Form.term, Form.chain, Form.factor, level, isAtom]
  | binary => simp [Form.term, Form.chain, level, isAtom]

theorem terms_joined (hop : op = .add ∨ op = .sub) (h : ∀ u ∈ e :: es, u.isTerm = true) :
    (joined op e es).level.terms = ⟨e.level, es.map fun u => (op, u.level)⟩ := by
  rw [Chain.terms, level_joined]
  induction es generalizing e with
  | nil => simpa using Form.split_of_ops (ops_of_isTerm (h e (List.mem_cons_self ..)))
  | cons u es ih =>
    have hsplit := Form.split_append hop (x := e.level.first) (y := u.level.first)
      (u.level.links ++ es.flatMap fun u => (op, u.level.first) :: u.level.links)
      (ops_of_isTerm (h e (List.mem_cons_self ..)))
    simp only [List.flatMap_cons, List.cons_append]
    rw [hsplit, ih fun v hv => h v (List.mem_cons_of_mem _ hv)]
    rfl

theorem expr_level (h : e.isTerm = true) : Form.term.expr e.level = e.grouped := by
  have hterms : (joined .add e []).level.terms = ⟨e.level, []⟩ :=
    terms_joined (.inl rfl) (by simpa using h)
  exact (congrArg Form.sum.expr hterms).symm

theorem grouped_joined_terms (hop : op = .add ∨ op = .sub) (h : ∀ u ∈ e :: es, u.isTerm = true) :
    (joined op e es).grouped = Form.term.fold op e.grouped (es.map level) := by
  rw [grouped, terms_joined hop h, ← expr_level (h e (List.mem_cons_self ..)), Form.fold,
    List.map_map]
  rfl

theorem expr_first (h : e.isFactor = true) : Form.factor.expr e.level.first = e.grouped := by
  have hlevel : e.level = ⟨e.level.first, []⟩ := by rw [← links_of_isFactor h]
  rw [grouped, hlevel]
  rfl

theorem bare_first (h : e.isFactor = true) : Form.factor.bare e.level.first = e.isAtom := by
  simp [← bare_level, Form.term, Form.chain, links_of_isFactor h]

theorem grouped_joined_factors (h : ∀ u ∈ e :: es, u.isFactor = true) :
    (joined .mul e es).grouped = Form.factor.fold .mul e.grouped (es.map fun u => u.level.first) := by
  have hlinks : (es.flatMap fun u => (BinaryOp.mul, u.level.first) :: u.level.links) =
      es.map fun u => (.mul, u.level.first) := by
    rw [← List.flatMap_pure_eq_map]
    refine List.flatMap_congr fun u hu => ?_
    rw [links_of_isFactor (h u (List.mem_cons_of_mem _ hu))]
    rfl
  have he : e.isFactor = true := h e (List.mem_cons_self ..)
  rw [grouped, Chain.terms, level_joined, links_of_isFactor he, List.nil_append, hlinks,
    Form.split_of_ops (by simp), ← expr_first he, Form.fold, List.map_map]
  rfl

/-- **Formulas that are joined are items of a chain**, which are bare if they
    are atoms. -/
theorem exists_items (α : Type) (hop : op ≠ .div) :
    ∃ (β : Type) (F : Form α β) (item : Written α → β),
      (∀ e, e.Joins op → F.expr (item e) = e.grouped ∧ F.bare (item e) = e.isAtom) ∧
      ∀ e es, (∀ u ∈ e :: es, u.Joins op) →
        (joined op e es).grouped = F.fold op e.grouped (es.map item) := by
  cases op with
  | add => exact ⟨_, Form.term, level, fun e h => ⟨expr_level h, bare_level e⟩,
      fun e es h => grouped_joined_terms (.inl rfl) h⟩
  | sub => exact ⟨_, Form.term, level, fun e h => ⟨expr_level h, bare_level e⟩,
      fun e es h => grouped_joined_terms (.inr rfl) h⟩
  | mul => exact ⟨_, Form.factor, fun e => e.level.first,
      fun e h => ⟨expr_first h, bare_first h⟩, fun e es h => grouped_joined_factors h⟩
  | div => exact absurd rfl hop

/-! ## Runs of formulas -/

theorem Joins.ne_div (h : e.Joins op) : op ≠ .div := by
  rintro rfl
  exact h

/-- Formulas in parentheses can be joined by every operator that may be
    repeated. -/
theorem joins_group (hop : op ≠ .div) (e : Written α) : (group e).Joins op := by
  cases op with
  | add | sub | mul => rfl
  | div => exact absurd rfl hop

theorem grouped_group (e : Written α) : (group e).grouped = e.grouped := rfl

/-- **Formulas that stand for the same, one by one**, stand for the same when
    they are joined just in case the same of them inside are atoms. -/
theorem grouped_joined_eq_iff {es fs : List (Written α)} (hes : ∀ u ∈ e :: es, u.Joins op)
    (hfs : ∀ u ∈ e :: fs, u.Joins op) (h : es.map grouped = fs.map grouped) :
    (joined op e es).grouped = (joined op e fs).grouped ↔
      es.dropLast.map isAtom = fs.dropLast.map isAtom := by
  have hop : op ≠ .div := (hes e (List.mem_cons_self ..)).ne_div
  obtain ⟨β, F, item, hitem, hjoined⟩ := exists_items α hop
  have hexpr {us : List (Written α)} (hus : ∀ u ∈ e :: us, u.Joins op) :
      (us.map item).map F.expr = us.map grouped := by
    rw [List.map_map]
    exact List.map_congr_left fun u hu => (hitem u (hus u (List.mem_cons_of_mem _ hu))).1
  have hbare {us : List (Written α)} (hus : ∀ u ∈ e :: us, u.Joins op) :
      (us.map item).dropLast.map F.bare = us.dropLast.map isAtom := by
    rw [← List.map_dropLast, List.map_map]
    refine List.map_congr_left fun u hu => ?_
    exact (hitem u (hus u (List.mem_cons_of_mem _ (List.mem_of_mem_dropLast hu)))).2
  have hsame : (es.map item).map F.expr = (fs.map item).map F.expr := by
    rw [hexpr hes, hexpr hfs, h]
  rw [hjoined e es hes, hjoined e fs hfs, ← hbare hes, ← hbare hfs]
  exact ⟨Form.bare_of_fold_eq hop hsame, Form.fold_congr hop hsame⟩

/-- Atoms are grouped from the right. -/
theorem grouped_joined_atoms (h : ∀ v ∈ e :: (ms ++ [u]), v.Joins op)
    (hatoms : ∀ m ∈ ms, m.isAtom = true) :
    (joined op e (ms ++ [u])).grouped = e.grouped.nest op ((ms ++ [u]).map grouped) := by
  have hop : op ≠ .div := (h e (List.mem_cons_self ..)).ne_div
  obtain ⟨β, F, item, hitem, hjoined⟩ := exists_items α hop
  have hbare : ∀ x ∈ ((ms ++ [u]).map item).dropLast, F.bare x = true := by
    intro x hx
    rw [List.map_append, List.map_singleton, List.dropLast_concat] at hx
    obtain ⟨m, hm, rfl⟩ := List.mem_map.1 hx
    rw [(hitem m (h m (by simp [hm]))).2, hatoms m hm]
  rw [hjoined _ _ h, Form.fold_of_bare hop hbare, List.map_map]
  congr 1
  exact List.map_congr_left fun v hv => (hitem v (h v (List.mem_cons_of_mem _ hv))).1

/-- **Nothing but atoms is grouped from the right.** -/
theorem grouped_joined_eq_nest_iff (h : ∀ v ∈ e :: (ms ++ [u]), v.Joins op) :
    (joined op e (ms ++ [u])).grouped = e.grouped.nest op ((ms ++ [u]).map grouped) ↔
      ∀ m ∈ ms, m.isAtom = true := by
  have hop : op ≠ .div := (h e (List.mem_cons_self ..)).ne_div
  -- in parentheses, what is inside is grouped from the right anyway
  have hgroups : ∀ v ∈ e :: (ms.map group ++ [u]), v.Joins op := by
    intro v hv
    rcases List.mem_cons.1 hv with rfl | hv
    · exact h v (List.mem_cons_self ..)
    rcases List.mem_append.1 hv with hv | hv
    · obtain ⟨m, -, rfl⟩ := List.mem_map.1 hv
      exact joins_group hop m
    · exact h v (by simp [List.mem_singleton.1 hv])
  have hnest := grouped_joined_atoms hgroups (by simp [isAtom])
  have hsame : (ms.map group ++ [u]).map grouped = (ms ++ [u]).map grouped := by
    rw [List.map_append, List.map_append, List.map_map]
    rfl
  rw [← hsame, ← hnest, grouped_joined_eq_iff h hgroups hsame.symm, List.dropLast_concat,
    List.dropLast_concat, List.map_map, ← List.map_eq_replicate_iff,
    List.map_eq_replicate_iff (l := ms) (f := isAtom ∘ group) (b := true) |>.2 fun _ _ => rfl]

/-- Parentheses around what is inside make a difference unless it is an atom. -/
theorem grouped_joined_group_iff
    (h : ∀ v ∈ e :: (before ++ m :: (behind ++ [u])), v.Joins op) :
    (joined op e (before ++ group m :: (behind ++ [u]))).grouped =
      (joined op e (before ++ m :: (behind ++ [u]))).grouped ↔ m.isAtom = true := by
  have hop : op ≠ .div := (h e (List.mem_cons_self ..)).ne_div
  have hgroup : ∀ v ∈ e :: (before ++ group m :: (behind ++ [u])), v.Joins op := by
    intro v hv
    rcases List.mem_cons.1 hv with rfl | hv
    · exact h v (List.mem_cons_self ..)
    rcases List.mem_append.1 hv with hv | hv
    · exact h v (by simp [hv])
    rcases List.mem_cons.1 hv with rfl | hv
    · exact joins_group hop m
    · exact h v (List.mem_cons_of_mem _ (List.mem_append_right _ (List.mem_cons_of_mem _ hv)))
  have hinside (v : Written α) :
      (before ++ v :: (behind ++ [u])).dropLast = before ++ v :: behind := by
    rw [← List.cons_append, ← List.append_assoc, List.dropLast_concat]
  rw [grouped_joined_eq_iff hgroup h (by simp [grouped_group]), hinside, hinside,
    List.map_append, List.map_append, List.append_cancel_left_eq, List.map_cons, List.map_cons,
    List.cons.injEq]
  exact ⟨fun hm => hm.1.symm, fun hm => ⟨hm.symm, rfl⟩⟩

/-- **What is more than an atom ends a run**: all up to it could as well be in
    parentheses. -/
theorem grouped_joined_append (h : ∀ v ∈ e :: (before ++ m :: behind), v.Joins op)
    (hm : m.isAtom = false) :
    (joined op e (before ++ m :: behind)).grouped =
      (joined op (group (joined op e (before ++ [m]))) behind).grouped := by
  have hop : op ≠ .div := (h e (List.mem_cons_self ..)).ne_div
  obtain ⟨β, F, item, hitem, hjoined⟩ := exists_items α hop
  have hend : ∀ x ∈ ((before ++ [m]).map item).getLast?, F.bare x = false := by
    intro x hx
    rw [List.getLast?_map, List.getLast?_concat] at hx
    obtain rfl : item m = x := Option.some.inj hx
    rw [(hitem m (h m (by simp))).2, hm]
  have hfirst : ∀ v ∈ e :: (before ++ [m]), v.Joins op := fun v hv => h v (by
    simp only [List.mem_cons, List.mem_append, List.not_mem_nil, or_false] at hv ⊢
    tauto)
  have hrest : ∀ v ∈ group (joined op e (before ++ [m])) :: behind, v.Joins op := by
    intro v hv
    rcases List.mem_cons.1 hv with rfl | hv
    · exact joins_group hop _
    · exact h v (by simp [hv])
  rw [hjoined _ _ hrest, grouped_group, hjoined _ _ hfirst, ← Form.fold_append hend, hjoined _ _ h]
  simp

theorem map_joined (f : α → β) (e : Written α) (es : List (Written α)) :
    (joined op e es).map f = joined op (e.map f) (es.map (map f)) := by
  induction es generalizing e with
  | nil => rfl
  | cons u es ih => exact ih (binary op e u)

theorem isTerm_map (f : α → β) (e : Written α) : (e.map f).isTerm = e.isTerm := by
  induction e with
  | operand | group => rfl
  | negate e ih => exact ih
  | binary op l r ihl ihr => simp only [map, isTerm, ihl, ihr]

theorem isFactor_map (f : α → β) (e : Written α) : (e.map f).isFactor = e.isFactor := by
  induction e with
  | operand | group | binary => rfl
  | negate e ih => exact ih

theorem isAtom_map (f : α → β) (e : Written α) : (e.map f).isAtom = e.isAtom := by
  cases e <;> rfl

theorem Joins.map (h : e.Joins op) (f : α → β) : (e.map f).Joins op := by
  cases op with
  | add | sub => exact (isTerm_map f e).trans h
  | mul => exact (isFactor_map f e).trans h
  | div => exact h

end Written

/-! ## Texts -/

namespace Written

/-- The text of formulas with one operator between them. -/
def chainText (op : BinaryOp) (es : List (Written Literal)) : String :=
  op.symbol.toString.intercalate (es.map text)

/-- What the text of a formula is parsed as. -/
def formula (e : Written Literal) : Formula :=
  (e.map Literal.operand).grouped

theorem parse_eq_formula (e : Written Literal) : Formula.parse e.text = .ok e.formula := by
  obtain ⟨ts, htokens, hlexemes⟩ := tokenize_text e
  exact Formula.parse_of_lexemes htokens hlexemes

theorem chainText_eq (op : BinaryOp) (e : Written Literal) (es : List (Written Literal)) :
    chainText op (e :: es) = (joined op e es).text := by
  unfold chainText
  induction es generalizing e with
  | nil => simp [joined]
  | cons u es ih =>
    rw [joined, List.foldl_cons, ← joined, ← ih]
    cases es with
    | nil => simp only [List.map_cons, List.map_nil, String.intercalate_cons_cons,
        String.intercalate_singleton, text]
    | cons v es => simp only [List.map_cons, String.intercalate_cons_cons, text, String.append_assoc]

theorem parse_chainText (op : BinaryOp) (e : Written Literal) (es : List (Written Literal)) :
    Formula.parse (chainText op (e :: es)) = .ok (joined op e es).formula := by
  rw [chainText_eq, parse_eq_formula]

theorem formula_joined (op : BinaryOp) (e : Written Literal) (es : List (Written Literal)) :
    (joined op e es).formula =
      (joined op (e.map Literal.operand) (es.map (map Literal.operand))).grouped := by
  rw [formula, map_joined]

end Written

open Written in
/-- **A chain of `+`, of `-` or of `*`** whose terms, or factors, are each
    parsed by themselves is parsed too.  It is grouped from the right just in
    case all that is inside of it are atoms.  Parentheses around a formula
    inside change what comes out just in case it is more than an atom; and then
    this formula, with all that is before it, is the first operand of what
    follows. -/
theorem parse_joined {op : BinaryOp} {t u : Written Literal} {ms : List (Written Literal)}
    (h : ∀ e ∈ t :: (ms ++ [u]), e.Joins op) :
    (∀ e ∈ t :: (ms ++ [u]), Formula.parse e.text = .ok e.formula) ∧
    (∃ f, Formula.parse (chainText op (t :: (ms ++ [u]))) = .ok f ∧
      (f = t.formula.nest op ((ms ++ [u]).map formula) ↔ ∀ m ∈ ms, m.isAtom = true)) ∧
    ∀ before m behind, ms = before ++ m :: behind →
      (Formula.parse (chainText op (t :: (before ++ group m :: (behind ++ [u])))) =
          Formula.parse (chainText op (t :: (ms ++ [u]))) ↔ m.isAtom = true) ∧
      (m.isAtom = false → Formula.parse (chainText op (t :: (ms ++ [u]))) =
        Formula.parse (chainText op (group (joined op t (before ++ [m])) :: (behind ++ [u])))) := by
  have hmap : ∀ e ∈ t.map Literal.operand ::
      (ms.map (Written.map Literal.operand) ++ [u.map Literal.operand]), e.Joins op := by
    intro e he
    rw [← List.map_singleton (f := Written.map Literal.operand), ← List.map_append,
      ← List.map_cons] at he
    obtain ⟨v, hv, rfl⟩ := List.mem_map.1 he
    exact (h v hv).map _
  refine ⟨fun e _ => parse_eq_formula e, ⟨_, parse_chainText .., ?_⟩, ?_⟩
  · have hiff := grouped_joined_eq_nest_iff hmap
    have hformulas : (ms.map (Written.map Literal.operand) ++ [u.map Literal.operand]).map grouped =
        (ms ++ [u]).map formula := by
      rw [← List.map_singleton (f := Written.map Literal.operand), ← List.map_append, List.map_map]
      rfl
    have hatoms : (∀ m ∈ ms.map (Written.map Literal.operand), m.isAtom = true) ↔
        ∀ m ∈ ms, m.isAtom = true := by
      simp [isAtom_map]
    rw [formula_joined, List.map_append, ← hatoms, ← hformulas]
    exact hiff
  · rintro before m behind rfl
    rw [List.append_assoc, List.cons_append]
    rw [List.map_append, List.map_cons, List.append_assoc, List.cons_append] at hmap
    simp only [parse_chainText, Except.ok.injEq, formula_joined, List.map_append, List.map_cons,
      List.map_nil]
    refine ⟨?_, fun hm => ?_⟩
    · rw [← isAtom_map Literal.operand]
      exact grouped_joined_group_iff hmap
    · rw [grouped_joined_append hmap ((isAtom_map ..).trans hm)]
      simp [map, map_joined]

open Written in
/-- A chain with an atom and a product inside. -/
theorem parse_joined_product :
    let x : Written Literal := .operand (.var "x" (.name (by decide) (by simp)))
    let y : Written Literal := .operand (.var "y" (.name (by decide) (by simp)))
    (∀ e ∈ negate x :: ([group (.binary .add x y), .binary .mul x y] ++ [y]), e.Joins .sub) ∧
    Formula.parse "(-x-(x+y)-x*y)-y" = Formula.parse "-x-(x+y)-x*y-y" ∧
    Formula.parse "-x-(x+y)-x*y" = .ok (x.negate.formula.nest .sub
      [(Written.binary .add x y).formula, (Written.binary .mul x y).formula]) := by
  intro x y
  have hjoins : ∀ e ∈ negate x :: ([group (.binary .add x y), .binary .mul x y] ++ [y]),
      e.Joins .sub := by
    simp only [List.cons_append, List.nil_append, List.forall_mem_cons, List.not_mem_nil]
    exact ⟨rfl, rfl, rfl, rfl, nofun⟩
  have hshort : ∀ e ∈ negate x :: ([group (.binary .add x y)] ++ [.binary .mul x y]),
      e.Joins .sub := fun e he => hjoins e (by simp at he ⊢; tauto)
  obtain ⟨-, -, hparens⟩ := parse_joined hjoins
  obtain ⟨-, ⟨f, hparse, hiff⟩, -⟩ := parse_joined hshort
  refine ⟨hjoins, ?_, ?_⟩
  · exact ((hparens [group (.binary .add x y)] _ [] rfl).2 rfl).symm
  · exact hparse.trans (congrArg _ (hiff.2 (by simp [isAtom])))

/-- A product inside a chain of `-` keeps it from being grouped from the right,
    unless it is in parentheses, and so does a negation in a chain of `*`. -/
theorem product_ends_run :
    let a : Formula := .leaf (.var "a")
    let b : Formula := .leaf (.var "b")
    let c : Formula := .leaf (.var "c")
    let d : Formula := .leaf (.var "d")
    Formula.parse "a" = .ok a ∧ Formula.parse "b*c" = .ok (.binary .mul b c) ∧
    Formula.parse "d" = .ok d ∧
    Formula.parse "a-b*c-d" ≠ .ok (a.nest .sub [.binary .mul b c, d]) ∧
    Formula.parse "a-(b*c)-d" = .ok (a.nest .sub [.binary .mul b c, d]) ∧
    Formula.parse "-b" = .ok (.negate b) ∧ Formula.parse "c" = .ok c ∧
    Formula.parse "a*-b*c" ≠ .ok (a.nest .mul [.negate b, c]) := by
  intro a b c d
  have hproduct : Formula.parse "a-b*c-d" =
      .ok (.binary .sub (.binary .sub a (.binary .mul b c)) d) := by cbv
  have hnegation : Formula.parse "a*-b*c" =
      .ok (.binary .mul (.binary .mul a (.negate b)) c) := by cbv
  refine ⟨by cbv, by cbv, by cbv, ?_, by cbv, by cbv, by cbv, ?_⟩
  · rw [hproduct]
    simp [Expr.nest, a]
  · rw [hnegation]
    simp [Expr.nest, a]

end Reckon
