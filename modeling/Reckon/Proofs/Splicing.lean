/-
  Reckon — a text in parentheses in the place of a variable.

  `replaceVar x g ts` writes the tokens `ts` down again with the text `g` in
  parentheses for each variable `x`, and `splice` does the same to lexemes.
  Nothing else changes on the way from the text to the tokens that formulas
  are built from:

  * `scan_replaceVar`: no other lexemes come of it, as nothing runs together
    with a parenthesis;
  * `resolveMinus_splice`: every minus is told apart as before, as an operand
    ends with the parentheses just as with the variable;
  * `checkBalance_splice`: the same is said about the balance of the tokens.
-/
import Reckon.Proofs.Spelling

namespace Reckon

/-! ## Texts and lexemes -/

/-- Lexemes in parentheses. -/
def inParens (gs : List Lexeme) : List Lexeme :=
  ⟨.openParen, "("⟩ :: (gs ++ [⟨.closeParen, ")"⟩])

/-- Lexemes with others in parentheses for each variable `x`. -/
def splice (x : String) (gs ls : List Lexeme) : List Lexeme :=
  ls.flatMap fun l => if l = ⟨.var, x⟩ then inParens gs else [l]

/-- The text of a token, or another text in parentheses for the variable `x`. -/
def Token.replaced (x g : String) (t : Token) : String :=
  if t.kind = .var ∧ t.text = x then "(" ++ g ++ ")" else t.text

/-- The text of tokens with another text in parentheses for each variable `x`. -/
def replaceVar (x g : String) (ts : List Token) : String :=
  String.join (ts.map (Token.replaced x g))

section Splice

variable {x : String} {gs ls : List Lexeme}

theorem splice_var (x : String) (gs ls : List Lexeme) :
    splice x gs (⟨.var, x⟩ :: ls) = inParens gs ++ splice x gs ls := by
  rw [splice, List.flatMap_cons, if_pos rfl]
  rfl

theorem splice_cons {l : Lexeme} (h : l ≠ ⟨.var, x⟩) (gs ls : List Lexeme) :
    splice x gs (l :: ls) = l :: splice x gs ls := by
  rw [splice, List.flatMap_cons, if_neg h]
  rfl

theorem spellLexemes_append (ls ms : List Lexeme) :
    spellLexemes (ls ++ ms) = spellLexemes ls ++ spellLexemes ms :=
  List.flatMap_append

theorem spellLexemes_inParens (gs : List Lexeme) :
    spellLexemes (inParens gs) = '(' :: (spellLexemes gs ++ [')']) := by
  rw [inParens, spellLexemes, List.flatMap_cons, ← spellLexemes, spellLexemes_append]
  rfl

theorem map_kind_inParens (gs : List Lexeme) :
    (inParens gs).map Lexeme.kind = .openParen :: (gs.map Lexeme.kind ++ [.closeParen]) := by
  rw [inParens, List.map_cons, List.map_append]
  rfl

/-- The text that lexemes are joined to. -/
def joinText (ls : List Lexeme) : String :=
  String.join (ls.map Lexeme.text)

theorem toList_joinText (ls : List Lexeme) : (joinText ls).toList = spellLexemes ls := by
  rw [joinText, String.toList_join, List.flatMap_map, spellLexemes]

theorem joinText_map_lexeme (ts : List Token) :
    joinText (ts.map Token.lexeme) = String.join (ts.map Token.text) := by
  rw [joinText, List.map_map]
  rfl

theorem toList_replaceVar {g : String} (hg : g.toList = spellLexemes gs) (x : String)
    (ts : List Token) :
    (replaceVar x g ts).toList = spellLexemes (splice x gs (ts.map Token.lexeme)) := by
  rw [replaceVar, String.toList_join]
  induction ts with
  | nil => rfl
  | cons t ts ih =>
    have hvar : t.lexeme = ⟨.var, x⟩ ↔ t.kind = .var ∧ t.text = x := by
      rw [Token.lexeme, Lexeme.mk.injEq]
    rw [List.map_cons, List.flatMap_cons, ih, List.map_cons, Token.replaced]
    by_cases h : t.lexeme = ⟨.var, x⟩
    · rw [if_pos (hvar.1 h), h, splice_var, spellLexemes_append, spellLexemes_inParens, String.toList_append,
        String.toList_append, hg]
      rfl
    · rw [if_neg (mt hvar.2 h), splice_cons h]
      rfl

/-! ## Scanning -/

/-- A splice begins as the lexemes do, or with a parenthesis. -/
theorem head_splice (hls : ∀ l ∈ ls, l.Fits) :
    ∀ c ∈ (spellLexemes (splice x gs ls)).head?, c = '(' ∨ c ∈ (spellLexemes ls).head? := by
  intro c hc
  cases ls with
  | nil => cases hc
  | cons l ls =>
    rcases eq_or_ne l ⟨.var, x⟩ with rfl | hl
    · rw [splice_var, spellLexemes_append, spellLexemes_inParens] at hc
      cases hc
      exact .inl rfl
    · obtain ⟨p, -, hfits⟩ := hls l (List.mem_cons_self ..)
      obtain ⟨d, ds, hds⟩ := List.exists_cons_of_ne_nil hfits.ne_nil
      rw [splice_cons hl, spellLexemes, List.flatMap_cons, hds] at hc
      rw [spellLexemes, List.flatMap_cons, hds]
      exact .inr hc

theorem munched_splice (hls : Munched (ls.map .lexeme)) (hgs : Munched (gs.map .lexeme)) :
    Munched ((splice x gs ls).map .lexeme) := by
  induction ls with
  | nil => exact .nil
  | cons l ls ih =>
    have hfits := hls.fits
    cases hls with
    | @lexeme l p ps hk hl hnext hls =>
      rcases eq_or_ne l ⟨.var, x⟩ with rfl | hne
      · -- nothing is prolonged by a parenthesis
        have hclose : Munched (.lexeme ⟨.closeParen, ")"⟩ :: (splice x gs ls).map .lexeme) :=
          .lexeme rfl (.only ')') (fun _ _ => rfl) (ih hls)
        have hinside := hgs.append hclose fun c hc => by cases hc; decide
        rw [splice_var, inParens, List.cons_append, List.map_cons, List.append_assoc,
          List.map_append]
        exact .lexeme rfl (.only '(') (fun _ _ => rfl) hinside
      · rw [splice_cons hne, List.map_cons]
        refine .lexeme hk hl (fun c hc => ?_) (ih hls)
        rw [spell_map_lexeme] at hc hnext
        rcases head_splice (fun m hm => hfits m (List.mem_cons_of_mem _ hm)) c hc with rfl | hc
        · exact p.prolongs_of_not_alphanum (by decide) (by decide) _
        · exact hnext c hc

theorem splice_ne_nil (h : ls ≠ []) : splice x gs ls ≠ [] := by
  obtain ⟨l, ls, rfl⟩ := List.exists_cons_of_ne_nil h
  rcases eq_or_ne l ⟨.var, x⟩ with rfl | hl
  · rw [splice_var]
    exact List.cons_ne_nil _ _
  · rw [splice_cons hl]
    exact List.cons_ne_nil _ _

end Splice

theorem map_lexeme_of_no_stray {ps : List Piece} (h : ps.filterMap Piece.stray? = [])
    (start : Nat) : ((locate start ps).map Token.lexeme).map .lexeme = ps := by
  induction ps generalizing start with
  | nil => rfl
  | cons piece ps ih =>
    cases piece with
    | lexeme l => exact congrArg _ (ih h _)
    | stray c => cases h

/-- What the tokens of a text have in common with it. -/
theorem spells_of_scan {text : String} {ts : List Token} (h : scan text = .ok ts) :
    ts.map Token.lexeme ≠ [] ∧ Munched ((ts.map Token.lexeme).map .lexeme) ∧
      text.toList = spellLexemes (ts.map Token.lexeme) := by
  obtain ⟨hmunched, hstray, rfl⟩ := lexemes_of_scan h
  have hmap := map_lexeme_of_no_stray hstray 0
  have hspell : text.toList = spellLexemes ((locate 0 (munch text.toList)).map Token.lexeme) := by
    rw [← spell_map_lexeme, hmap, spell_munch]
  refine ⟨fun hnil => ?_, by rwa [hmap], hspell⟩
  rw [hnil] at hspell
  obtain rfl : text = "" := String.toList_eq_nil_iff.1 hspell
  have hempty : scan "" = .error (.lexical .empty) := by cbv
  rw [hempty] at h
  cases h

/-- **The tokens of a text give it back.** -/
theorem join_text_of_scan {text : String} {ts : List Token} (h : scan text = .ok ts) :
    String.join (ts.map Token.text) = text := by
  rw [← joinText_map_lexeme, ← String.toList_inj, toList_joinText, (spells_of_scan h).2.2]

/-- **A text with a variable replaced is scanned into a splice.** -/
theorem scan_replaceVar {f g : String} {ts us : List Token} (hf : scan f = .ok ts)
    (hg : scan g = .ok us) (x : String) :
    ∃ ts', scan (replaceVar x g ts) = .ok ts' ∧
      ts'.map Token.lexeme = splice x (us.map Token.lexeme) (ts.map Token.lexeme) := by
  obtain ⟨hne, hmunched, -⟩ := spells_of_scan hf
  obtain ⟨-, hgmunched, hgtext⟩ := spells_of_scan hg
  exact ⟨_, scan_munched (splice_ne_nil hne) (munched_splice hmunched hgmunched)
    (toList_replaceVar hgtext x ts), map_lexeme_locate _ 0⟩

/-! ## Minus signs -/

section Minus

variable {x : String} {gs ls : List Lexeme}

theorem Lexeme.raw_eq_var_iff {l : Lexeme} : l.raw = ⟨.var, x⟩ ↔ l = ⟨.var, x⟩ := by
  obtain ⟨kind, text⟩ := l
  rw [Lexeme.raw, Lexeme.mk.injEq, Lexeme.mk.injEq]
  rcases kind with _ | _ | ⟨_ | _⟩ | _ | _ <;> simp [Kind.raw]

theorem map_raw_splice (x : String) (gs ls : List Lexeme) :
    (splice x gs ls).map Lexeme.raw = splice x (gs.map Lexeme.raw) (ls.map Lexeme.raw) := by
  induction ls with
  | nil => rfl
  | cons l ls ih =>
    rcases eq_or_ne l ⟨.var, x⟩ with rfl | hl
    · have hraw : Lexeme.raw ⟨.var, x⟩ = ⟨.var, x⟩ := rfl
      have hparens : (inParens gs).map Lexeme.raw = inParens (gs.map Lexeme.raw) := by
        simp [inParens, Lexeme.raw, Kind.raw]
      rw [splice_var, List.map_append, ih, hparens, List.map_cons, hraw, splice_var]
    · rw [splice_cons hl, List.map_cons, ih, List.map_cons,
        splice_cons (mt Lexeme.raw_eq_var_iff.1 hl)]

/-- An operand ends behind the parentheses as it does behind the variable, and
    none ends where a text or a group begins. -/
theorem told_splice (hgs : Told none (gs.map Lexeme.kind)) {p q : Option Kind}
    (h : p.any Kind.endsOperand = q.any Kind.endsOperand) (hls : Told p (ls.map Lexeme.kind)) :
    Told q ((splice x gs ls).map Lexeme.kind) := by
  induction ls generalizing p q with
  | nil => trivial
  | cons l ls ih =>
    obtain ⟨hl, hls⟩ := hls
    rcases eq_or_ne l ⟨.var, x⟩ with rfl | hne
    · have hinside := Told.congr (p := none) (q := some .openParen) rfl hgs
      rw [splice_var, List.map_append, map_kind_inParens, List.cons_append, List.append_assoc]
      exact ⟨rfl, hinside.append fun _ => ⟨rfl, ih (p := some .var) (q := some .closeParen) rfl hls⟩⟩
    · rw [splice_cons hne]
      rw [Kind.after, h] at hl
      exact ⟨hl, ih rfl hls⟩

end Minus

theorem map_kind_lexeme (ts : List Token) :
    (ts.map Token.lexeme).map Lexeme.kind = ts.map Token.kind :=
  List.map_map

/-- **In a splice every minus is told apart as before.** -/
theorem resolveMinus_splice {x : String} {ts us ts' : List Token}
    (hts : ∀ t ∈ ts, t.kind ≠ .operator .negate) (hus : ∀ t ∈ us, t.kind ≠ .operator .negate)
    (h : ts'.map Token.lexeme = splice x (us.map Token.lexeme) (ts.map Token.lexeme)) :
    (resolveMinus ts').map Token.lexeme =
      splice x ((resolveMinus us).map Token.lexeme) ((resolveMinus ts).map Token.lexeme) := by
  refine map_lexeme_resolveMinusAfter ?_ ?_
  · have htold := told_resolveMinusAfter hts none
    have hgtold := told_resolveMinusAfter hus none
    rw [← map_kind_lexeme] at htold hgtold
    exact told_splice hgtold rfl htold
  · rw [map_raw_splice, resolveMinus, resolveMinus, map_raw_resolveMinusAfter hus,
      map_raw_resolveMinusAfter hts, h]

/-! ## Balance -/

section Balance

variable {x : String} {gs : List Lexeme}

theorem nesting_splice (hgs : nesting (gs.map Lexeme.kind) = ⟨0, false⟩) (ls : List Lexeme) :
    nesting ((splice x gs ls).map Lexeme.kind) = nesting (ls.map Lexeme.kind) := by
  have key {n : Nesting} (hn : n.Honest) : ((splice x gs ls).map Lexeme.kind).foldl Nesting.step n =
      (ls.map Lexeme.kind).foldl Nesting.step n := by
    induction ls generalizing n with
    | nil => rfl
    | cons l ls ih =>
      rcases eq_or_ne l ⟨.var, x⟩ with rfl | hl
      · rw [splice_var, List.map_append, List.foldl_append, map_kind_inParens,
          foldl_nesting_group hgs hn, ih hn]
        rfl
      · rw [splice_cons hl]
        exact ih (hn.step _)
  exact key (.inl le_rfl)

theorem countP_inParens (gs : List Lexeme) {p : Kind → Bool} (hopen : p .openParen = false)
    (hclose : p .closeParen = false) :
    ((inParens gs).map Lexeme.kind).countP p = (gs.map Lexeme.kind).countP p := by
  simp [map_kind_inParens, List.countP_append, hopen, hclose]

/-- Replaced variables add as many operands as binary operators. -/
theorem countP_splice (hgs : (gs.map Lexeme.kind).countP Kind.isOperand =
    (gs.map Lexeme.kind).countP Kind.isBinary + 1) (ls : List Lexeme) :
    ∃ n, ((splice x gs ls).map Lexeme.kind).countP Kind.isOperand =
        (ls.map Lexeme.kind).countP Kind.isOperand + n ∧
      ((splice x gs ls).map Lexeme.kind).countP Kind.isBinary =
        (ls.map Lexeme.kind).countP Kind.isBinary + n := by
  induction ls with
  | nil => exact ⟨0, rfl, rfl⟩
  | cons l ls ih =>
    obtain ⟨n, hoperands, hbinary⟩ := ih
    rcases eq_or_ne l ⟨.var, x⟩ with rfl | hl
    · refine ⟨n + (gs.map Lexeme.kind).countP Kind.isBinary, ?_, ?_⟩
      · rw [splice_var, List.map_append, List.countP_append, hoperands, countP_inParens _ rfl rfl,
          hgs, List.map_cons, List.countP_cons_of_pos (by rfl)]
        omega
      · have hvar : ¬ Kind.isBinary .var = true := Bool.false_ne_true
        rw [splice_var, List.map_append, List.countP_append, hbinary, countP_inParens _ rfl rfl,
          List.map_cons, List.countP_cons_of_neg hvar]
        omega
    · refine ⟨n, ?_, ?_⟩
      · rw [splice_cons hl, List.map_cons, List.countP_cons, hoperands, List.map_cons,
          List.countP_cons]
        omega
      · rw [splice_cons hl, List.map_cons, List.countP_cons, hbinary, List.map_cons,
          List.countP_cons]
        omega

end Balance

/-- **A splice is in balance as what it was made of**, or has the same faults. -/
theorem checkBalance_splice {x : String} {gs : List Lexeme} (hgs : Balanced (gs.map Lexeme.kind))
    {ts ts' : List Token} (h : ts'.map Token.lexeme = splice x gs (ts.map Token.lexeme)) :
    checkBalance ts' = checkBalance ts := by
  have hnesting := nesting_splice (x := x) hgs.nested (ts.map Token.lexeme)
  obtain ⟨n, hoperands, hbinary⟩ := countP_splice (x := x) hgs.operands (ts.map Token.lexeme)
  rw [← h, map_kind_lexeme, map_kind_lexeme] at hnesting hoperands hbinary
  have hcomplaints : operandComplaints (ts'.map Token.kind) =
      operandComplaints (ts.map Token.kind) := by
    simp only [operandComplaints, hoperands, hbinary, gt_iff_lt, Nat.add_right_comm _ n,
      Nat.add_lt_add_iff_right]
  have hparens : parenthesisComplaints (ts'.map Token.kind) =
      parenthesisComplaints (ts.map Token.kind) := by
    rw [parenthesisComplaints, hnesting, parenthesisComplaints]
  simp only [checkBalance, hcomplaints, hparens]

end Reckon
