/-
  Reckon — scanning finds what one pass finds.

  * `sweep_blanked`: sweeping for one kind finds exactly the pieces of this
    kind, whatever kinds have been blanked before.  Only for numbers must the
    names be among these, as they contain digits;
  * `sweepKind_sweepOrder`: the sweeps one after the other find all lexemes
    and leave the stray characters;
  * `scan_spell`: scanning a text that is spelled by pieces finds them;
  * `scan_eq_scanOnce`: scanning a text is reading it in one pass.
-/
import Reckon.Proofs.Munch

namespace Reckon

/-! ## Lengths -/

theorem byteLength_cons (c : Char) (cs : List Char) :
    byteLength (c :: cs) = c.utf8Size + byteLength cs := rfl

theorem byteLength_append (cs ds : List Char) :
    byteLength (cs ++ ds) = byteLength cs + byteLength ds := by
  induction cs with
  | nil => exact (Nat.zero_add _).symm
  | cons c cs ih => rw [List.cons_append, byteLength_cons, ih, byteLength_cons, Nat.add_assoc]

theorem byteLength_eq_length {cs : List Char} (h : ∀ c ∈ cs, c.utf8Size = 1) :
    byteLength cs = cs.length := by
  induction cs with
  | nil => rfl
  | cons c cs ih =>
    have hc := h c (List.mem_cons_self ..)
    have hcs := ih fun d hd => h d (List.mem_cons_of_mem _ hd)
    rw [byteLength_cons, hc, hcs, List.length_cons, Nat.add_comm]

theorem byteLength_replicate (n : Nat) : byteLength (List.replicate n blank) = n := by
  rw [byteLength_eq_length, List.length_replicate]
  intro c hc
  rw [List.eq_of_mem_replicate hc]
  decide

theorem Pattern.Fits.utf8Size_eq_one {k : Kind} {p : Pattern} {cs : List Char} (h : p.Fits cs)
    (hk : k.pattern? = some p) : ∀ c ∈ cs, c.utf8Size = 1 := by
  intro c hc
  rcases h.of_mem hc with hc | rfl | rfl
  · exact utf8Size_of_isAlphanum hc
  · decide
  · exact (Kind.pattern_only hk).2.2.2.1

/-! ## One sweep -/

section Sweep

variable {k : Kind} {p : Pattern}

/-- Where no match begins, a sweep finds nothing and changes nothing. -/
theorem sweep_skip {cs : List Char} (h : ∀ c ∈ cs, p.starts c = false) (start : Nat)
    (rest : List Char) :
    sweep k p start (cs ++ rest) =
      ((sweep k p (start + byteLength cs) rest).1,
        cs ++ (sweep k p (start + byteLength cs) rest).2) := by
  induction cs generalizing start with
  | nil => rfl
  | cons c cs ih =>
    have hc := h c (List.mem_cons_self ..)
    have hcs := ih (fun d hd => h d (List.mem_cons_of_mem _ hd)) (start + c.utf8Size)
    have hlen : start + c.utf8Size + byteLength cs = start + byteLength (c :: cs) :=
      Nat.add_assoc ..
    rw [hlen] at hcs
    rw [List.cons_append, sweep, Pattern.matchLength_eq_zero hc, hcs]
    rfl

theorem sweep_match {cs : List Char} (h : p.Fits cs) (start : Nat) {rest : List Char}
    (hr : ∀ c ∈ rest.head?, p.prolongs cs c = false) :
    sweep k p start (cs ++ rest) =
      (⟨k, String.ofList cs, start, start + byteLength cs⟩ ::
          (sweep k p (start + byteLength cs) rest).1,
        List.replicate cs.length blank ++ (sweep k p (start + byteLength cs) rest).2) := by
  have hm := Pattern.matchLength_append h hr
  obtain ⟨c, ds, rfl⟩ := List.exists_cons_of_ne_nil h.ne_nil
  rw [List.cons_append, List.length_cons] at hm
  rw [List.cons_append, sweep, hm]
  simp only [List.take_left, List.drop_left, List.length_cons]

end Sweep

/-! ## Blanked pieces -/

/-- What is left of a piece once the kinds in `done` have been blanked. -/
def Piece.blanked (done : List Kind) : Piece → List Char
  | lexeme l => if l.kind ∈ done then List.replicate l.text.toList.length blank else l.text.toList
  | stray c => [c]

/-- What is left of pieces once the kinds in `done` have been blanked. -/
def blanked (done : List Kind) (ps : List Piece) : List Char :=
  ps.flatMap (Piece.blanked done)

theorem blanked_cons (done : List Kind) (piece : Piece) (ps : List Piece) :
    blanked done (piece :: ps) = piece.blanked done ++ blanked done ps := rfl

theorem blanked_nil (ps : List Piece) : blanked [] ps = spell ps := by
  have h : Piece.blanked [] = Piece.chars := by
    funext piece
    cases piece <;> rfl
  rw [blanked, h, spell]

theorem head_blanked {done : List Kind} {ps : List Piece} (h : Munched ps) :
    ∀ c ∈ (blanked done ps).head?, c = blank ∨ c ∈ (spell ps).head? := by
  intro c hc
  cases h with
  | nil => cases hc
  | @lexeme l p ps hk hfits =>
    rw [blanked_cons, Piece.blanked] at hc
    obtain ⟨d, ds, hl⟩ := List.exists_cons_of_ne_nil hfits.ne_nil
    split at hc
    · rw [hl] at hc
      cases hc
      exact .inl rfl
    · simp only [spell, List.flatMap_cons, Piece.chars]
      rw [hl] at hc ⊢
      exact .inr hc
  | stray => exact .inr hc

theorem starts_blank {k : Kind} {p : Pattern} (hk : k.pattern? = some p) :
    p.starts blank = false := by
  cases p with
  | name | decimal => decide
  | only c => simpa [Pattern.starts] using fun h => (Kind.pattern_only hk).2.2.1 h.symm

theorem prolongs_blank (p : Pattern) (cs : List Char) : p.prolongs cs blank = false :=
  p.prolongs_of_not_alphanum (by decide) (by decide) cs

/-- **A sweep finds the pieces of its kind**, in what other sweeps have left,
    and blanks them.  Numbers must be swept for when the names are gone. -/
theorem sweep_blanked {k : Kind} {p : Pattern} {done : List Kind} (hk : k.pattern? = some p)
    (hdone : k ∉ done) (hnames : k = .number → Kind.var ∈ done) {ps : List Piece}
    (h : Munched ps) (start : Nat) :
    sweep k p start (blanked done ps) =
      ((locate start ps).filter (·.kind = k), blanked (done ++ [k]) ps) := by
  induction h generalizing start with
  | nil => rw [blanked, List.flatMap_nil, sweep]; rfl
  | @lexeme l q ps hq hfits hnext hps ih =>
    rw [blanked_cons, blanked_cons, locate]
    by_cases hl : l.kind ∈ done
    · -- the text is blank already
      have hne : l.kind ≠ k := fun he => hdone (he ▸ hl)
      have hsize := byteLength_eq_length (hfits.utf8Size_eq_one hq)
      have hblank : ∀ c ∈ List.replicate l.text.toList.length blank, p.starts c = false :=
        fun c hc => List.eq_of_mem_replicate hc ▸ starts_blank hk
      simp only [Piece.blanked, hl, List.mem_append, true_or, if_true]
      rw [sweep_skip hblank, byteLength_replicate, ← hsize, ih,
        List.filter_cons_of_neg (by simpa using hne)]
    · by_cases he : l.kind = k
      · -- the text is a match
        obtain rfl : q = p := Option.some.inj (hq.symm.trans (he ▸ hk))
        have hrest : ∀ c ∈ (blanked done ps).head?, q.prolongs l.text.toList c = false := by
          intro c hc
          rcases head_blanked hps c hc with rfl | hc
          · exact prolongs_blank ..
          · exact hnext c hc
        simp only [Piece.blanked, he, List.mem_append, List.mem_singleton, or_true, if_true,
          if_false, hdone]
        rw [sweep_match hfits start hrest, ih, String.ofList_toList,
          List.filter_cons_of_pos (by simp)]
      · -- no match begins in the text
        have hname : ¬ (q = .name ∧ p = .decimal) := by
          rintro ⟨rfl, rfl⟩
          have hkn : k = .number := Kind.pattern_injective hk rfl
          have hlv : l.kind = .var := Kind.pattern_injective hq rfl
          exact hl (hlv ▸ hnames hkn)
        have hnone := hfits.starts_eq_false hq hk he hname
        simp only [Piece.blanked, hl, he, List.mem_append, List.mem_singleton, or_false, if_false]
        rw [sweep_skip hnone, ih, List.filter_cons_of_neg (by simpa using he)]
  | @stray c ps hc hps ih =>
    have hnone : ∀ d ∈ [c], p.starts d = false := fun d hd => List.mem_singleton.1 hd ▸ hc k p hk
    have hsize : byteLength [c] = c.utf8Size := rfl
    rw [blanked_cons, blanked_cons, locate, Piece.blanked, sweep_skip hnone, hsize, ih]
    rfl

/-! ## All sweeps -/

/-- What the order of the sweeps is for. -/
theorem sweepOrder_split {done todo : List Kind} {k : Kind}
    (h : Kind.sweepOrder = done ++ k :: todo) :
    k.pattern? ≠ none ∧ k ∉ done ∧ (k = .number → Kind.var ∈ done) := by
  have hmem : k ∈ Kind.sweepOrder := h ▸ List.mem_append_right _ (List.mem_cons_self ..)
  have hnodup : (done ++ k :: todo).Nodup := h ▸ (by decide : Kind.sweepOrder.Nodup)
  have hsome : ∀ k ∈ Kind.sweepOrder, k.pattern? ≠ none := by decide
  refine ⟨hsome k hmem, fun hk => ?_, fun hk => ?_⟩
  · exact (List.nodup_append.1 hnodup).2.2 k hk k (List.mem_cons_self ..) rfl
  · -- the names are the first of all
    cases done with
    | nil => cases hk; cases h
    | cons j done =>
      have hj : j = .var := (List.cons.inj h).1.symm
      exact hj ▸ List.mem_cons_self ..

/-- **The sweeps that are left find the lexemes of their kinds.** -/
theorem foldl_sweepKind {ps : List Piece} (h : Munched ps) {done todo : List Kind}
    (hsplit : Kind.sweepOrder = done ++ todo) (tokens : List Token) :
    todo.foldl sweepKind (tokens, blanked done ps) =
      (tokens ++ todo.flatMap fun k => (locate 0 ps).filter (·.kind = k),
        blanked Kind.sweepOrder ps) := by
  induction todo generalizing done tokens with
  | nil => rw [hsplit, List.append_nil]; simp
  | cons k todo ih =>
    obtain ⟨hsome, hk, hnames⟩ := sweepOrder_split hsplit
    obtain ⟨p, hp⟩ := Option.ne_none_iff_exists'.1 hsome
    have hstep : sweepKind (tokens, blanked done ps) k =
        (tokens ++ (locate 0 ps).filter (·.kind = k), blanked (done ++ [k]) ps) := by
      simp only [sweepKind, hp, sweep_blanked hp hk hnames h]
    rw [List.foldl_cons, hstep, ih (by rw [hsplit, List.append_assoc]; rfl), List.flatMap_cons,
      List.append_assoc]

theorem mem_sweepOrder {k : Kind} {p : Pattern} (h : k.pattern? = some p) :
    k ∈ Kind.sweepOrder := by
  rcases k with _ | _ | ⟨⟨_ | _ | _ | _⟩ | _⟩ | _ | _ <;> first | cases h; done | decide

theorem filter_blanked {ps : List Piece} (h : Munched ps) (hb : blank ∉ spell ps) :
    (blanked Kind.sweepOrder ps).filter (· ≠ blank) = ps.filterMap Piece.stray? := by
  induction h with
  | nil => rfl
  | @lexeme l p ps hk _ _ _ ih =>
    have hbs : blank ∉ spell ps := fun hm => hb (List.mem_append_right _ hm)
    rw [blanked_cons, List.filter_append, ih hbs, Piece.blanked, if_pos (mem_sweepOrder hk),
      List.filterMap_cons_none rfl]
    simp
  | @stray c ps _ _ ih =>
    have hc : c ≠ blank := fun hc => hb (hc ▸ List.mem_cons_self ..)
    have hbs : blank ∉ spell ps := fun hm => hb (List.mem_append_right _ hm)
    rw [blanked_cons, List.filter_append, ih hbs]
    simp [Piece.blanked, Piece.stray?, hc]

/-! ## The order of the tokens -/

theorem kind_mem_sweepOrder {ps : List Piece} (h : Munched ps) (start : Nat) :
    ∀ t ∈ locate start ps, t.kind ∈ Kind.sweepOrder := by
  induction h generalizing start with
  | nil => exact fun t ht => absurd ht List.not_mem_nil
  | lexeme hk _ _ _ ih =>
    intro t ht
    rcases List.mem_cons.1 ht with rfl | ht
    · exact mem_sweepOrder hk
    · exact ih _ t ht
  | stray _ _ ih => exact ih _

/-- A list sorted out by kinds is the list in another order. -/
theorem flatMap_filter_perm {ks : List Kind} (hks : ks.Nodup) (ts : List Token) :
    (ks.flatMap fun k => ts.filter (·.kind = k)).Perm (ts.filter (·.kind ∈ ks)) := by
  induction ks with
  | nil => simp
  | cons k ks ih =>
    obtain ⟨hk, hks⟩ := List.nodup_cons.1 hks
    rw [List.flatMap_cons]
    refine ((ih hks).append_left _).trans ?_
    refine .trans ?_ (List.filter_append_perm (·.kind = k) (ts.filter (·.kind ∈ k :: ks)))
    rw [List.filter_filter, List.filter_filter]
    refine .of_eq ?_
    congr 1 <;> refine List.filter_congr fun t _ => ?_
    · by_cases htk : t.kind = k <;> simp [htk]
    · by_cases htk : t.kind = k
      · simp [htk, hk]
      · simp [htk]

theorem locate_append (start : Nat) (ps qs : List Piece) :
    locate start (ps ++ qs) = locate start ps ++ locate (start + byteLength (spell ps)) qs := by
  induction ps generalizing start with
  | nil => rfl
  | cons piece ps ih =>
    have hspell : spell (piece :: ps) = piece.chars ++ spell ps := List.flatMap_cons
    cases piece with
    | lexeme l =>
      rw [List.cons_append, locate, ih, locate, hspell, byteLength_append, ← Nat.add_assoc]
      rfl
    | stray c =>
      rw [List.cons_append, locate, ih, locate, hspell, byteLength_append, ← Nat.add_assoc]
      rfl

theorem start_le_of_mem_locate {ps : List Piece} {start : Nat} {t : Token}
    (h : t ∈ locate start ps) : start ≤ t.start := by
  induction ps generalizing start with
  | nil => cases h
  | cons piece ps ih =>
    cases piece with
    | lexeme l =>
      rcases List.mem_cons.1 h with rfl | h
      · exact le_rfl
      · exact (Nat.le_add_right ..).trans (ih h)
    | stray c => exact (Nat.le_add_right ..).trans (ih h)

theorem locate_sorted {ps : List Piece} (h : Munched ps) (start : Nat) :
    (locate start ps).Pairwise fun s t => s.start < t.start := by
  induction h generalizing start with
  | nil => exact .nil
  | @lexeme l p ps hk hfits _ _ ih =>
    refine .cons (fun t ht => ?_) (ih _)
    have hpos : 0 < byteLength l.text.toList := by
      rw [byteLength_eq_length (hfits.utf8Size_eq_one hk)]
      exact List.length_pos_iff.2 hfits.ne_nil
    exact (Nat.lt_add_of_pos_right hpos).trans_le (start_le_of_mem_locate ht)
  | stray _ _ ih => exact ih _

/-- Sorting the tokens by their places puts them into the order of the text. -/
theorem mergeSort_eq_locate {ps : List Piece} (h : Munched ps) {ts : List Token}
    (hts : ts.Perm (locate 0 ps)) :
    ts.mergeSort (fun s t => s.start ≤ t.start) = locate 0 ps := by
  have hsorted := locate_sorted h 0
  have hinj : ((locate 0 ps).map Token.start).Nodup :=
    List.pairwise_map.2 (hsorted.imp Nat.ne_of_lt)
  have hperm := (List.mergeSort_perm ts fun s t => s.start ≤ t.start).trans hts
  have hmerged : (ts.mergeSort fun s t => s.start ≤ t.start).Pairwise
      fun s t => decide (s.start ≤ t.start) = true :=
    List.pairwise_mergeSort (fun a b c hab hbc => by simp only [decide_eq_true_eq] at *; omega)
      (fun a b => by simp only [Bool.or_eq_true, decide_eq_true_eq]; omega) ts
  have hlocated : (locate 0 ps).Pairwise fun s t => decide (s.start ≤ t.start) = true :=
    hsorted.imp fun hst => decide_eq_true (Nat.le_of_lt hst)
  refine hperm.eq_of_pairwise (fun s t hs ht hst hts => ?_) hmerged hlocated
  rw [decide_eq_true_eq] at hst hts
  exact List.inj_on_of_nodup_map hinj (hperm.mem_iff.1 hs) ht (Nat.le_antisymm hst hts)

/-! ## Scanning -/

/-- **The sweeps together find all lexemes**, in some order, and leave the
    stray characters. -/
theorem sweepKind_sweepOrder {ps : List Piece} (h : Munched ps) (hb : blank ∉ spell ps) :
    (Kind.sweepOrder.foldl sweepKind ([], spell ps)).1.Perm (locate 0 ps) ∧
      (Kind.sweepOrder.foldl sweepKind ([], spell ps)).2.filter (· ≠ blank) =
        ps.filterMap Piece.stray? := by
  rw [← blanked_nil, foldl_sweepKind h rfl]
  refine ⟨(flatMap_filter_perm (by decide) _).trans ?_, filter_blanked h hb⟩
  rw [List.filter_eq_self.2]
  exact fun t ht => decide_eq_true (kind_mem_sweepOrder h 0 t ht)

theorem locate_eq_nil_iff {ps : List Piece} (h : ps.filterMap Piece.stray? = []) (start : Nat) :
    locate start ps = [] ↔ ps = [] := by
  cases ps with
  | nil => exact iff_of_true rfl rfl
  | cons piece ps =>
    cases piece with
    | lexeme l => exact iff_of_false (List.cons_ne_nil _ _) (List.cons_ne_nil _ _)
    | stray c => cases h

theorem outsiders_eq_nil_iff {text : String} :
    outsiders text = [] ↔ inAlphabet text = true := by
  rw [List.eq_nil_iff_forall_not_mem, inAlphabet, List.all_eq_true]
  refine forall_congr' fun c => ?_
  simp only [outsiders, List.mem_eraseDups, List.mem_filter, Bool.not_eq_true', not_and,
    Bool.not_eq_false]

/-- A text of the alphabet that is spelled by pieces is scanned into them. -/
theorem scan_spell {text : String} {ps : List Piece} (h : Munched ps)
    (htext : text.toList = spell ps) (halphabet : inAlphabet text = true) :
    scan text = readPieces ps := by
  have hb : blank ∉ spell ps := by
    intro hm
    have := List.all_eq_true.1 halphabet blank (htext ▸ hm)
    revert this
    decide
  obtain ⟨hperm, hleft⟩ := sweepKind_sweepOrder h hb
  unfold scan readPieces
  rw [outsiders_eq_nil_iff.2 halphabet, htext]
  simp only [ne_eq, not_true_eq_false, if_false]
  simp only [ne_eq, decide_not] at hleft
  simp only [decide_not, hleft]
  cases hstray : ps.filterMap Piece.stray? with
  | cons c cs => simp
  | nil =>
    have hempty : (Kind.sweepOrder.foldl sweepKind ([], spell ps)).1 = [] ↔ ps = [] := by
      rw [← List.perm_nil, hperm.congr_left, List.perm_nil, locate_eq_nil_iff hstray]
    rw [mergeSort_eq_locate h hperm]
    cases ps with
    | nil => simp [hempty.2 rfl]
    | cons piece ps => simp [mt hempty.1 (List.cons_ne_nil _ _)]

/-- The tokens of a text, read in one pass. -/
def scanOnce (text : String) : Except Error (List Token) :=
  readPieces (munch text.toList)

theorem inAlphabet_of_scan {text : String} {ts : List Token} (h : scan text = .ok ts) :
    inAlphabet text = true := by
  refine outsiders_eq_nil_iff.1 ?_
  by_contra hne
  rw [scan, if_pos hne] at h
  cases h

theorem readPieces_eq_ok {ps : List Piece} {ts : List Token} (h : readPieces ps = .ok ts) :
    ps.filterMap Piece.stray? = [] ∧ ts = locate 0 ps := by
  unfold readPieces at h
  split at h
  · cases h
  · cases h
  · rename_i hstray
    cases h
    exact ⟨hstray, rfl⟩

/-- What is scanned are lexemes that fit, in their order. -/
theorem lexemes_of_scan {text : String} {ts : List Token} (h : scan text = .ok ts) :
    Munched (munch text.toList) ∧ (munch text.toList).filterMap Piece.stray? = [] ∧
      ts = locate 0 (munch text.toList) := by
  have hmunched := munched_munch text.toList
  rw [scan_spell hmunched (spell_munch _).symm (inAlphabet_of_scan h)] at h
  exact ⟨hmunched, readPieces_eq_ok h⟩

/-- Every minus is scanned as a binary one. -/
theorem kind_ne_negate_of_scan {text : String} {ts : List Token} (h : scan text = .ok ts) :
    ∀ t ∈ ts, t.kind ≠ .operator .negate := by
  obtain ⟨hmunched, -, rfl⟩ := lexemes_of_scan h
  intro t ht hneg
  have := kind_mem_sweepOrder hmunched 0 t ht
  rw [hneg] at this
  revert this
  decide

theorem readPieces_munch_empty {text : String} :
    scanOnce text = .error (.lexical .empty) ↔ text = "" := by
  have hspell := spell_munch text.toList
  unfold scanOnce readPieces
  constructor
  · intro h
    split at h
    · cases h
    · rename_i hps _
      rw [hps] at hspell
      exact String.toList_eq_nil_iff.1 hspell.symm
    · cases h
  · rintro rfl
    simp [munch]

/-- **Scanning is reading in one pass.**  The sweeps for one kind after the
    other give the tokens, or the stray characters, that are met when a text
    is read from left to right and as much is taken each time as can be; and
    only the empty text is said to be empty. -/
theorem scan_eq_scanOnce (text : String) (h : inAlphabet text = true) :
    scan text = scanOnce text ∧ (scan text = .error (.lexical .empty) ↔ text = "") := by
  have heq : scan text = scanOnce text :=
    scan_spell (munched_munch _) (spell_munch _).symm h
  exact ⟨heq, heq ▸ readPieces_munch_empty⟩

theorem scan_points_and_digits :
    scan "1.x2-y3" = .ok [⟨.number, "1.", 0, 2⟩, ⟨.var, "x2", 2, 4⟩,
        ⟨.operator (.binary .sub), "-", 4, 5⟩, ⟨.var, "y3", 5, 7⟩] ∧
      scan "x1.5..2=y" = .error (.lexical (.unrecognized "..=")) := by
  refine ⟨?_, ?_⟩
  · rw [(scan_eq_scanOnce "1.x2-y3" (by decide +kernel)).1]
    decide +kernel
  · rw [(scan_eq_scanOnce "x1.5..2=y" (by decide +kernel)).1]
    decide +kernel

end Reckon
