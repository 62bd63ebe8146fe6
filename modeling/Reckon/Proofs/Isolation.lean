/-
  Reckon — what is in parentheses is by itself.

  * `Occurs e before f behind`: the expression `e` occurs in `f`, between the
    given leaves.  What occurs among the operands that wait goes on doing so,
    and what is read later comes behind it (`within_run`);
  * `run_of_embed`: symbols that can be taken behind an open parenthesis can
    be taken by themselves, if their parentheses are in pairs;
  * `build_of_group`: so if something with parentheses in it can be built, what
    is inside them can be built by itself, and occurs in the whole with just
    its own leaves;
  * `tokenize_parens`: the tokens of a text in parentheses are those that it
    has by itself, at other places;
  * `parse_group` puts this together.
-/
import Reckon.Proofs.Agreement
import Reckon.Proofs.Substitution

namespace Reckon

open Build

variable {α : Type}

/-! ## Occurrences -/

namespace Expr

/-- The expression `e` occurs in another one, behind some of its leaves and
    before others. -/
inductive Occurs (e : Expr α) : List α → Expr α → List α → Prop
  | here : Occurs e [] e []
  | negate {l r : List α} {f : Expr α} : Occurs e l f r → Occurs e l (.negate f) r
  | left {l r : List α} {f : Expr α} (op : BinaryOp) (g : Expr α) : Occurs e l f r →
      Occurs e l (.binary op f g) (r ++ g.leaves)
  | right {l r : List α} {g : Expr α} (op : BinaryOp) (f : Expr α) : Occurs e l g r →
      Occurs e (f.leaves ++ l) (.binary op f g) r

/-- An expression that occurs has the leaves between the others. -/
theorem Occurs.leaves_eq {e f : Expr α} {l r : List α} (h : e.Occurs l f r) :
    f.leaves = l ++ e.leaves ++ r := by
  induction h with
  | here => simp
  | negate _ ih => exact ih
  | left op g _ ih => rw [leaves, ih, List.append_assoc]
  | right op f _ ih => rw [leaves, ih]; simp only [List.append_assoc]

end Expr

namespace Build

/-- The expression `e` occurs in one of the operands that wait, behind some of
    their leaves and before others. -/
inductive Within (e : Expr α) : List α → List (Expr α) → List α → Prop
  | intro {l r : List α} {f : Expr α} (later earlier : List (Expr α)) : e.Occurs l f r →
      Within e (leaves earlier ++ l) (later ++ f :: earlier) (r ++ leaves later)

variable {e : Expr α} {l r : List α}

theorem Within.push {es : List (Expr α)} (h : Within e l es r) (f : Expr α) :
    Within e l (f :: es) (r ++ f.leaves) := by
  obtain ⟨later, earlier, hoccurs⟩ := h
  rw [List.append_assoc, ← leaves_cons]
  exact .intro (f :: later) earlier hoccurs

/-- **Applying an operator** keeps what occurs in its operands. -/
theorem within_reduce {o : Operator} {pending : List Pending} {es es' : List (Expr α)}
    (h : Within e l es r) (hreduce : reduce o pending es = .ok es') : Within e l es' r := by
  obtain ⟨later, earlier, hoccurs⟩ := h
  obtain ⟨x, rest, rfl, hes, rfl, -⟩ | ⟨op, x, y, rest, rfl, hes, rfl, -⟩ := reduce_eq_ok hreduce
  · rcases later with _ | ⟨x', later⟩
    · obtain ⟨rfl, rfl⟩ := List.cons.inj hes
      exact .intro [] _ hoccurs.negate
    · obtain ⟨rfl, rfl⟩ := List.cons.inj hes
      have hleaves : leaves (x' :: later) = leaves (.negate x' :: later) := by
        simp only [leaves_cons, Expr.leaves]
      rw [hleaves]
      exact .intro (.negate x' :: later) earlier hoccurs
  · rcases later with _ | ⟨y', _ | ⟨x', later⟩⟩
    · obtain ⟨rfl, rfl⟩ := List.cons.inj hes
      rw [leaves_cons, List.append_assoc]
      exact .intro [] rest (hoccurs.right op x)
    · obtain ⟨rfl, hrest⟩ := List.cons.inj hes
      obtain ⟨rfl, rfl⟩ := List.cons.inj hrest
      have hleft := Within.intro [] earlier (hoccurs.left op y')
      simpa [leaves] using hleft
    · obtain ⟨rfl, hrest⟩ := List.cons.inj hes
      obtain ⟨rfl, rfl⟩ := List.cons.inj hrest
      have hleaves : leaves (y' :: x' :: later) = leaves (.binary op x' y' :: later) := by
        simp only [leaves_cons, Expr.leaves, List.append_assoc]
      rw [hleaves]
      exact .intro (.binary op x' y' :: later) earlier hoccurs

theorem within_settles {p : Nat} {b c : Build α} (h : Within e l b.operands r)
    (hsettles : Settles p b c) : Within e l c.operands r := by
  induction hsettles with
  | refl => exact h
  | reduce _ hreduce _ ih => exact ih (within_reduce h hreduce)

theorem within_take {b c : Build α} {s : Symbol α} (h : Within e l b.operands r)
    (htake : b.take s = .ok c) : Within e l c.operands (r ++ s.operand?.toList) := by
  cases s with
  | operand a =>
    cases htake
    exact h.push (.leaf a)
  | operator o =>
    obtain ⟨d, hsettles, rfl⟩ := settles_of_shift htake
    have hd : Within e l d.operands r := within_settles h hsettles
    exact (List.append_nil r).symm ▸ hd
  | openParen =>
    cases htake
    exact (List.append_nil r).symm ▸ h
  | closeParen =>
    obtain ⟨height, -, hsettles⟩ := settles_of_closeGroup htake
    have hc := within_settles (c := ⟨c.operands, .group height :: c.pending⟩) h hsettles
    exact (List.append_nil r).symm ▸ hc

/-- **What is read later** comes behind what has been built. -/
theorem within_run {ss : List (Symbol α)} {b c : Build α} (h : Within e l b.operands r)
    (hrun : run b ss = .ok c) : Within e l c.operands (r ++ ss.filterMap Symbol.operand?) := by
  induction ss generalizing b r with
  | nil =>
    cases hrun
    rw [List.filterMap_nil, List.append_nil]
    exact h
  | cons s ss ih =>
    obtain ⟨d, htake, hrun⟩ := bind_eq_ok.1 hrun
    have hrest := ih (within_take h htake) hrun
    rw [List.append_assoc] at hrest
    cases s <;> exact hrest

theorem occurs_of_finish {b : Build α} {f : Expr α} (h : Within e l b.operands r)
    (hfinish : finish b.pending b.operands = .ok f) : e.Occurs l f r := by
  have hone := within_settles h (settles_of_finish hfinish)
  generalize hes : [f] = es at hone
  obtain ⟨later, earlier, hoccurs⟩ := hone
  rcases later with _ | ⟨x, later⟩
  · obtain ⟨rfl, rfl⟩ := List.cons.inj hes
    simpa [leaves] using hoccurs
  · simp at hes

end Build

/-! ## Groups -/

/-- **Symbols behind an open parenthesis** that do not close it are taken as
    they are by themselves. -/
theorem run_of_embed {c : Build Operand} (hc : c.Ground) {ss : List (Symbol Operand)}
    {ks : List Kind} {a d : Build Operand} (ha : Counts ks a)
    (hearly : (nesting (ks ++ ss.map Symbol.kind)).closedEarly = false)
    (h : run (embed .leaf c a) ss = .ok d) :
    ∃ b, run a ss = .ok b ∧ d = embed .leaf c b := by
  induction ss generalizing ks a with
  | nil =>
    cases h
    exact ⟨a, rfl, rfl⟩
  | cons s ss ih =>
    obtain ⟨d₁, htake, h⟩ := bind_eq_ok.1 h
    have hopen : a.take s ≠ .error (.internal .nothingOpen) := by
      intro herror
      obtain hmisplaced | ⟨-, rfl, hopens⟩ := misplaced_of_take herror
      · cases hmisplaced
      · rw [List.map_cons, Symbol.kind, ha.closedEarly hopens] at hearly
        cases hearly
    rw [take_embed hc (fun _ _ => rfl) a (.inr hopen)] at htake
    cases hs : a.take s with
    | error e => rw [hs] at htake; cases htake
    | ok a₁ =>
      rw [hs] at htake
      cases htake
      rw [List.map_cons, List.append_cons] at hearly
      obtain ⟨b, hb, rfl⟩ := ih (ha.take hs) hearly h
      exact ⟨b, by rw [run_cons, hs]; exact hb, rfl⟩

/-- Closing a parenthesis is finishing what is behind it. -/
theorem finish_of_closeGroup {es : List (Expr α)} {pending : List Pending} {b d : Build α}
    (hb : b.opens = 0)
    (h : closeGroup (embed .leaf ⟨es, .group es.length :: pending⟩ b).pending
      (embed .leaf ⟨es, .group es.length :: pending⟩ b).operands = .ok d) :
    ∃ e, finish b.pending b.operands = .ok e ∧ d = ⟨e :: es, pending⟩ := by
  have hc : Ground ⟨es, .group es.length :: pending⟩ := .group ..
  obtain ⟨os, waiting⟩ := b
  induction waiting generalizing os with
  | nil =>
    simp only [embed, List.map_nil, List.nil_append, closeGroup, List.length_append,
      List.length_map, Nat.add_sub_cancel_right] at h
    rcases os with _ | ⟨e, _ | ⟨e', os⟩⟩
    · cases h
    · cases h
      exact ⟨e, rfl, by simp [Expr.bind_leaf]⟩
    · cases h
  | cons q waiting ih =>
    cases q with
    | group height => simp [opens, Pending.isGroup] at hb
    | operator o =>
      rw [embed_operator, closeGroup, reduce_embed hc o ⟨os, waiting⟩] at h
      cases hreduce : reduce o waiting os with
      | error e => simp only [hreduce] at h; cases h
      | ok os' =>
        simp only [hreduce] at h
        obtain ⟨e, hfinish, rfl⟩ := ih os' hb h
        exact ⟨e, by rw [finish, hreduce]; exact hfinish, rfl⟩

/-- **Groups are built by themselves.**  What is inside a pair of parentheses
    can be built, and occurs in all that is built, between the operands before
    and behind the parentheses. -/
theorem build_of_group {before inside behind : List (Symbol Operand)} {b : Build Operand}
    {f : Formula}
    (hrun : run empty (before ++ .openParen :: (inside ++ .closeParen :: behind)) = .ok b)
    (hfinish : finish b.pending b.operands = .ok f)
    (hinside : nesting (inside.map Symbol.kind) = ⟨0, false⟩) :
    ∃ c e, run empty inside = .ok c ∧ finish c.pending c.operands = .ok e ∧
      e.Occurs (before.filterMap Symbol.operand?) f (behind.filterMap Symbol.operand?) := by
  rw [run_append] at hrun
  obtain ⟨a, hbefore, hrun⟩ := bind_eq_ok.1 hrun
  rw [run_cons, take, ok_bind, run_append] at hrun
  obtain ⟨d, hgroup, hrun⟩ := bind_eq_ok.1 hrun
  obtain ⟨d', hclose, hbehind⟩ := bind_eq_ok.1 hrun
  have hc : Ground ⟨a.operands, .group a.operands.length :: a.pending⟩ := .group ..
  obtain ⟨c, hc', rfl⟩ := run_of_embed hc .empty
    (by rw [List.nil_append, hinside]) (by rw [embed_empty]; exact hgroup)
  have hopens : c.opens = 0 := by
    have hnested := (Counts.empty.run hc').nested
    rw [List.nil_append, hinside] at hnested
    simpa using congrArg Nesting.depth hnested.symm
  obtain ⟨e, he, rfl⟩ := finish_of_closeGroup hopens hclose
  refine ⟨c, e, hc', he, ?_⟩
  have hwithin : Within e (leaves a.operands) (e :: a.operands) [] := by
    have := Within.intro [] a.operands (Expr.Occurs.here (e := e))
    simpa [leaves] using this
  have hlast := occurs_of_finish (within_run hwithin hbehind) hfinish
  rw [leaves_run hbefore] at hlast
  simpa [leaves, empty] using hlast

/-! ## Tokens of a group -/

/-- **What is in parentheses is scanned as it is by itself**, only further to
    the right. -/
theorem scan_parens {text : String} {ts : List Token} (hscan : scan text = .ok ts)
    {pre inner post : List Char} (htext : text.toList = pre ++ '(' :: (inner ++ ')' :: post)) :
    let start := byteLength pre
    let stop := start + 1 + byteLength inner
    (munch inner).filterMap Piece.stray? = [] ∧
      ts = locate 0 (munch pre) ++ ⟨.openParen, "(", start, start + 1⟩ ::
        (locate (start + 1) (munch inner) ++ ⟨.closeParen, ")", stop, stop + 1⟩ ::
          locate (stop + 1) (munch post)) := by
  intro start stop
  have hclose : Munched (.lexeme ⟨.closeParen, ")"⟩ :: munch post) :=
    .lexeme rfl (.only ')') (fun _ _ => rfl) (munched_munch post)
  have hinner := (munched_munch inner).append hclose fun c hc => by cases hc; decide
  have hopen : Munched (.lexeme ⟨.openParen, "("⟩ ::
      (munch inner ++ .lexeme ⟨.closeParen, ")"⟩ :: munch post)) :=
    .lexeme rfl (.only '(') (fun _ _ => rfl) hinner
  have hall := (munched_munch pre).append hopen fun c hc => by cases hc; decide
  have hspell : text.toList = spell (munch pre ++ .lexeme ⟨.openParen, "("⟩ ::
      (munch inner ++ .lexeme ⟨.closeParen, ")"⟩ :: munch post)) := by
    rw [htext, spell_append, spell_munch, spell, List.flatMap_cons, ← spell, spell_append,
      spell_munch, spell, List.flatMap_cons, ← spell, spell_munch]
    rfl
  rw [scan_spell hall hspell (inAlphabet_of_scan hscan)] at hscan
  obtain ⟨hstray, rfl⟩ := readPieces_eq_ok hscan
  simp only [List.filterMap_append, List.append_eq_nil_iff] at hstray
  refine ⟨?_, ?_⟩
  · have := hstray.2
    rw [List.filterMap_cons_none rfl, List.filterMap_append, List.append_eq_nil_iff] at this
    exact this.1
  · rw [locate_append, spell_munch, locate, locate_append, spell_munch, locate, Nat.zero_add]
    rfl

/-- Minus signs in parentheses are told apart by what is before them there. -/
theorem resolveMinus_parens (ts us vs : List Token) {t u : Token} (ht : t.kind = .openParen)
    (hu : u.kind = .closeParen) :
    ∃ before behind, resolveMinus (ts ++ t :: (us ++ u :: vs)) =
      before ++ t :: (resolveMinusAfter (some .openParen) us ++ u :: behind) := by
  refine ⟨resolveMinusAfter none ts, resolveMinusAfter (some .closeParen) vs, ?_⟩
  rw [resolveMinus, resolveMinusAfter_append, resolveMinusAfter_paren _ (.inl ht), ht,
    resolveMinusAfter_append, resolveMinusAfter_paren _ (.inr hu), hu]

/-- **The tokens of a text in parentheses** are between those of the
    parentheses. -/
theorem tokenize_parens {text : String} {ts : List Token} (h : tokenize text = .ok ts)
    {pre inner post : List Char} (htext : text.toList = pre ++ '(' :: (inner ++ ')' :: post)) :
    let start := byteLength pre
    let stop := start + 1 + byteLength inner
    (munch inner).filterMap Piece.stray? = [] ∧
      ∃ before behind, ts = before ++ ⟨.openParen, "(", start, start + 1⟩ ::
        (resolveMinusAfter (some .openParen) (locate (start + 1) (munch inner)) ++
          ⟨.closeParen, ")", stop, stop + 1⟩ :: behind) := by
  intro start stop
  obtain ⟨raw, hscan, -, rfl⟩ := tokenize_eq_ok_iff.1 h
  obtain ⟨hstray, rfl⟩ := scan_parens hscan htext
  exact ⟨hstray, resolveMinus_parens _ _ _ rfl rfl⟩

/-- Telling the minus signs apart has nothing to do with the nesting. -/
theorem foldl_nesting_resolveMinusAfter (ts : List Token) (previous : Option Kind) (n : Nesting) :
    ((resolveMinusAfter previous ts).map Token.kind).foldl Nesting.step n =
      (ts.map Token.kind).foldl Nesting.step n := by
  induction ts generalizing previous n with
  | nil => rfl
  | cons t ts ih =>
    have hstep : n.step (t.kind.after previous) = n.step t.kind := Kind.apply_after n.step rfl ..
    rw [resolveMinusAfter, List.map_cons, List.foldl_cons, hstep, ih]
    rfl

/-- Names and numbers have no characters that are tokens by themselves. -/
theorem filterMap_ofChar {k : Kind} {p : Pattern} (hk : k.pattern? = some p) {cs : List Char}
    (hfits : p.Fits cs) : cs.filterMap Kind.ofChar? = if k.isOperand then [] else [k] := by
  have hnone (hp : p = .name ∨ p = .decimal) : cs.filterMap Kind.ofChar? = [] := by
    refine List.filterMap_eq_nil_iff.2 fun c hc => ?_
    refine Option.eq_none_iff_forall_ne_some.2 fun j hj => ?_
    obtain ⟨halphanum, hpoint, -⟩ := Kind.pattern_only (pattern_ofChar hj)
    obtain h | h | rfl := hfits.of_mem hc
    · rw [halphanum] at h
      cases h
    · exact hpoint h
    · simp at hp
  cases p with
  | name => rw [hnone (.inl rfl), if_pos (Kind.isOperand_of_pattern hk (.inl rfl))]
  | decimal => rw [hnone (.inr rfl), if_pos (Kind.isOperand_of_pattern hk (.inr rfl))]
  | only c =>
    cases hfits
    match k with
    | .operator (.binary .add) | .operator (.binary .sub) | .operator (.binary .mul)
    | .operator (.binary .div) | .openParen | .closeParen => cases hk; rfl

/-- The nesting of tokens is that of the characters that are tokens by
    themselves. -/
theorem foldl_nesting_locate {ps : List Piece} (h : Munched ps) (start : Nat) (n : Nesting) :
    ((locate start ps).map Token.kind).foldl Nesting.step n =
      ((spell ps).filterMap Kind.ofChar?).foldl Nesting.step n := by
  induction h generalizing start n with
  | nil => rfl
  | @lexeme l p ps hk hfits _ _ ih =>
    have hspell : spell (.lexeme l :: ps) = l.text.toList ++ spell ps := List.flatMap_cons
    rw [hspell, List.filterMap_append, filterMap_ofChar hk hfits, List.foldl_append, locate,
      List.map_cons, List.foldl_cons, ih]
    cases l.kind <;> rfl
  | @stray c ps hstray _ ih =>
    have hspell : spell (.stray c :: ps) = c :: spell ps := List.flatMap_cons
    have hc : Kind.ofChar? c = none := by
      refine Option.eq_none_iff_forall_ne_some.2 fun k hk => ?_
      have hstarts := hstray k _ (pattern_ofChar hk)
      simp [Pattern.starts] at hstarts
    rw [hspell, List.filterMap_cons_none hc, locate, ih]

/-- **Parentheses in pairs** in a text are tokens in pairs. -/
theorem nesting_of_nested {cs : List Char} (h : Nested '(' ')' cs) (start : Nat)
    (previous : Option Kind) :
    nesting ((resolveMinusAfter previous (locate start (munch cs))).map Token.kind) =
      ⟨0, false⟩ := by
  have hkinds : Nested .openParen .closeParen (cs.filterMap Kind.ofChar?) := by
    refine h.filterMap (f := Kind.ofChar?) rfl rfl fun c hopen hclose => ?_
    refine ⟨fun hc => ?_, fun hc => ?_⟩
    · cases pattern_ofChar hc
      exact hopen rfl
    · cases pattern_ofChar hc
      exact hclose rfl
  rw [nesting, foldl_nesting_resolveMinusAfter, foldl_nesting_locate (munched_munch cs),
    spell_munch]
  exact hkinds.nesting_eq

/-- The operands among tokens are the given ones, in their order. -/
def Denote (ts : List Token) (operands : List Operand) : Prop :=
  List.Forall₂ (fun t a => t.symbol = .ok (.operand a)) (ts.filter fun t => t.kind.isOperand)
    operands

theorem denote_of_symbols {ts : List Token} {ss : List (Symbol Operand)}
    (h : List.Forall₂ (fun t s => t.symbol = .ok s) ts ss) :
    Denote ts (ss.filterMap Symbol.operand?) := by
  induction h with
  | nil => exact .nil
  | @cons t s ts ss hts _ ih =>
    have hkind := Token.kind_of_symbol hts
    cases s with
    | operand a =>
      have hoperand : t.kind.isOperand = true := by
        rw [← hkind]
        cases a <;> rfl
      simp only [Denote, List.filter_cons, hoperand, if_true]
      exact .cons hts ih
    | operator | openParen | closeParen =>
      have hother : t.kind.isOperand = false := by
        rw [← hkind]
        rfl
      simp only [Denote, List.filter_cons, hother, Bool.false_eq_true, if_false]
      exact ih

/-- **What is between parentheses is parsed**, if it can be built. -/
theorem parse_inner {cs : List Char} {ts : List Token} {start : Nat} {previous : Option Kind}
    (hprevious : previous.any Kind.endsOperand = false)
    (hstray : (munch cs).filterMap Piece.stray? = [])
    (hts : ts = resolveMinusAfter previous (locate start (munch cs))) {e : Formula}
    (hbuild : Formula.ofTokens ts = .ok e) : Formula.parse (String.ofList cs) = .ok e := by
  subst hts
  have hpieces := map_lexeme_of_no_stray hstray start
  have hmunched := munched_munch cs
  have hne : (locate start (munch cs)).map Token.lexeme ≠ [] := by
    intro hnil
    rw [List.map_eq_nil_iff.1 hnil] at hbuild
    cases hbuild
  rw [← hpieces] at hmunched
  have hscan : scan (String.ofList cs) = .ok (locate 0 (munch cs)) := by
    have htext : (String.ofList cs).toList =
        spellLexemes ((locate start (munch cs)).map Token.lexeme) := by
      rw [← spell_map_lexeme, hpieces, spell_munch, String.toList_ofList]
    rw [scan_munched hne hmunched htext, hpieces]
  have hlexemes : (resolveMinusAfter previous (locate start (munch cs))).map Token.lexeme =
      (resolveMinus (locate 0 (munch cs))).map Token.lexeme := by
    refine map_lexeme_resolveMinusAfter_congr hprevious ?_
    conv_rhs => rw [← hpieces]
    exact (map_lexeme_locate _ 0).symm
  rw [Formula.ofTokens_eq, hlexemes, ← Formula.ofTokens_eq] at hbuild
  rw [Formula.parse_of_scan hscan, checkBalance_eq_ok_iff.2 (balanced_of_ofTokens hbuild), ok_bind,
    hbuild]

/-- **Groups are isolated.**  Between two parentheses of a text that can be
    parsed, if the parentheses there are in pairs, there is a text that can be
    parsed by itself, and is not empty.  What it is parsed as occurs in what
    the whole is parsed as; its leaves are the operands between the two
    parentheses, and those before and behind it are the operands before and
    behind the parentheses. -/
theorem parse_group {text : String} {f : Formula} (hparse : Formula.parse text = .ok f)
    {pre inner post : List Char} (htext : text.toList = pre ++ '(' :: (inner ++ ')' :: post))
    (hinner : Nested '(' ')' inner) :
    let start := byteLength pre
    let stop := start + 1 + byteLength inner
    ∃ before inside behind e left right,
      tokenize text = .ok (before ++ ⟨.openParen, "(", start, start + 1⟩ ::
        (inside ++ ⟨.closeParen, ")", stop, stop + 1⟩ :: behind)) ∧
      inner ≠ [] ∧ Formula.parse (String.ofList inner) = .ok e ∧
      e.Occurs left f right ∧
      Denote before left ∧ Denote inside e.leaves ∧ Denote behind right := by
  intro start stop
  obtain ⟨ts, htokens, ss, hss, b, hrun, hfinish⟩ := Formula.parse_eq_ok_iff.1 hparse
  obtain ⟨hstray, before, behind, rfl⟩ := tokenize_parens htokens htext
  obtain ⟨ss₁, _, rfl, hbefore, hgroup⟩ := forall₂_append_left hss
  obtain ⟨s, _, hopen, hrest, rfl⟩ := List.forall₂_cons_left_iff.1 hgroup
  cases hopen
  obtain ⟨ss₂, _, rfl, hinside, hend⟩ := forall₂_append_left hrest
  obtain ⟨s, ss₃, hclose, hbehind, rfl⟩ := List.forall₂_cons_left_iff.1 hend
  cases hclose
  have hnested : nesting (ss₂.map Symbol.kind) = ⟨0, false⟩ := by
    rw [map_kind_of_symbols hinside]
    exact nesting_of_nested hinner _ _
  obtain ⟨c, e, hc, he, hoccurs⟩ := build_of_group hrun hfinish hnested
  have hbuild : Formula.ofTokens _ = .ok e :=
    bind_eq_ok.2 ⟨c, takeAll_eq_ok_iff.2 ⟨ss₂, hinside, hc⟩, he⟩
  have hparsed : Formula.parse (String.ofList inner) = .ok e := parse_inner rfl hstray rfl hbuild
  have hne : inner ≠ [] := by
    rintro rfl
    have hempty : Formula.parse "" = .error (.lexical .empty) := by cbv
    cases hparsed.symm.trans hempty
  have hleaves : Denote _ e.leaves := leaves_build hc he ▸ denote_of_symbols hinside
  exact ⟨_, _, _, e, _, _, htokens, hne, hparsed, hoccurs, denote_of_symbols hbefore, hleaves,
    denote_of_symbols hbehind⟩

/-- A group in a group, with an operator behind both of its operands. -/
theorem parse_group_operator_last :
    let inner := ['(', 'x', ')', 'y', '-']
    let f : Formula := .binary .mul (.leaf (.var "a"))
      (.binary .sub (.leaf (.var "x")) (.leaf (.var "y")))
    Formula.parse "a*((x)y-)" = .ok f ∧ Nested '(' ')' inner ∧
      ∃ e left right, Formula.parse "(x)y-" = .ok e ∧ e.Occurs left f right := by
  intro inner f
  have hparse : Formula.parse "a*((x)y-)" = .ok f := by cbv
  have hx : Nested '(' ')' ['x'] := .other (by decide) (by decide) .nil
  have hrest : Nested '(' ')' ['y', '-'] :=
    .other (by decide) (by decide) (.other (by decide) (by decide) .nil)
  have hinner : Nested '(' ')' inner := .group hx hrest
  have htext : "a*((x)y-)".toList = ['a', '*'] ++ '(' :: (inner ++ ')' :: []) := rfl
  obtain ⟨-, -, -, e, left, right, -, -, he, hoccurs, -⟩ := parse_group hparse htext hinner
  exact ⟨hparse, hinner, e, left, right, he, hoccurs⟩

end Reckon
