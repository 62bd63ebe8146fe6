/-
  Reckon — reading a text in one pass.

  Scanning sweeps a text once for each kind.  Here is the plain way to read it
  instead: from left to right, always taking as much as can be taken.

  * `munch` cuts a text into pieces, lexemes and stray characters, and
    `readPieces` makes tokens or an error of them;
  * `Munched` says without a computation that a list of pieces is one that
    `munch` leads to: the texts fit, and no next character prolongs one
    (`munched_munch`).
-/
import Reckon.Proofs.Pattern

namespace Reckon

/-! ## Pieces -/

/-- A token apart from its place. -/
structure Lexeme where
  kind : Kind
  text : String
deriving DecidableEq

/-- What a text is cut into. -/
inductive Piece where
  | lexeme (l : Lexeme)
  /-- a character that belongs to no token -/
  | stray (c : Char)

namespace Piece

def chars : Piece → List Char
  | lexeme l => l.text.toList
  | stray c => [c]

/-- The character of a stray piece. -/
def stray? : Piece → Option Char
  | lexeme _ => none
  | stray c => some c

end Piece

/-- The text that is cut into the given pieces. -/
def spell (ps : List Piece) : List Char :=
  ps.flatMap Piece.chars

/-- The tokens among pieces that begin at the byte `start`. -/
def locate (start : Nat) : List Piece → List Token
  | [] => []
  | .lexeme l :: ps =>
    let stop := start + byteLength l.text.toList
    ⟨l.kind, l.text, start, stop⟩ :: locate stop ps
  | .stray c :: ps => locate (start + c.utf8Size) ps

/-- The tokens of a text with the given pieces.  There must be pieces, and no
    stray ones. -/
def readPieces (ps : List Piece) : Except Error (List Token) :=
  match ps, ps.filterMap Piece.stray? with
  | _, c :: cs => .error (.lexical (.unrecognized (String.ofList (c :: cs))))
  | [], [] => .error (.lexical .empty)
  | ps, [] => .ok (locate 0 ps)

/-! ## One pass -/

/-- The kind of the token that is a single character. -/
def Kind.ofChar? : Char → Option Kind
  | '+' => some (.operator (.binary .add))
  | '-' => some (.operator (.binary .sub))
  | '*' => some (.operator (.binary .mul))
  | '/' => some (.operator (.binary .div))
  | '(' => some .openParen
  | ')' => some .closeParen
  | _ => none

/-- Digits, a point if it follows and the digits behind it; and the rest. -/
def splitNumber (cs : List Char) : List Char × List Char :=
  match cs.dropWhile Char.isDigit with
  | '.' :: ds =>
    (cs.takeWhile Char.isDigit ++ '.' :: ds.takeWhile Char.isDigit, ds.dropWhile Char.isDigit)
  | rest => (cs.takeWhile Char.isDigit, rest)

theorem splitNumber_append (cs : List Char) :
    (splitNumber cs).1 ++ (splitNumber cs).2 = cs := by
  have h := List.takeWhile_append_dropWhile (p := Char.isDigit) (l := cs)
  unfold splitNumber
  split
  · rename_i ds hds
    rw [hds] at h
    simpa using h
  · exact h

theorem length_splitNumber_le (cs : List Char) : (splitNumber cs).2.length ≤ cs.length := by
  have h := congrArg List.length (splitNumber_append cs)
  rw [List.length_append] at h
  omega

/-- The pieces of a text, from left to right.  At a letter a name is taken, at
    a digit a number, each as long as it can be, and any other character by
    itself. -/
def munch : List Char → List Piece
  | [] => []
  | c :: cs =>
    if c.isAlpha then
      .lexeme ⟨.var, String.ofList (c :: cs.takeWhile Char.isAlphanum)⟩ ::
        munch (cs.dropWhile Char.isAlphanum)
    else if c.isDigit then
      .lexeme ⟨.number, String.ofList (c :: (splitNumber cs).1)⟩ :: munch (splitNumber cs).2
    else match Kind.ofChar? c with
      | some k => .lexeme ⟨k, c.toString⟩ :: munch cs
      | none => .stray c :: munch cs
termination_by cs => cs.length
decreasing_by
  · exact Nat.lt_succ_of_le (List.dropWhile_sublist _).length_le
  · exact Nat.lt_succ_of_le (length_splitNumber_le cs)
  · exact Nat.lt_succ_self _
  · exact Nat.lt_succ_self _

theorem spell_munch (cs : List Char) : spell (munch cs) = cs := by
  fun_induction munch cs with
  | case1 => rfl
  | case2 c cs _ ih =>
    simp only [spell, List.flatMap_cons, Piece.chars, String.toList_ofList] at ih ⊢
    rw [ih, List.cons_append, List.takeWhile_append_dropWhile]
  | case3 c cs _ _ ih =>
    simp only [spell, List.flatMap_cons, Piece.chars, String.toList_ofList] at ih ⊢
    rw [ih, List.cons_append, splitNumber_append]
  | case4 c cs _ _ k _ ih =>
    simp only [spell, List.flatMap_cons, Piece.chars] at ih ⊢
    rw [ih]
    simp
  | case5 c cs _ _ _ ih =>
    simp only [spell, List.flatMap_cons, Piece.chars] at ih ⊢
    rw [ih]
    rfl

/-- Pieces that cannot be cut otherwise: each lexeme fits the pattern of its
    kind and is not prolonged by the next character, and no match begins at a
    stray character. -/
inductive Munched : List Piece → Prop
  | nil : Munched []
  | lexeme {l : Lexeme} {p : Pattern} {ps : List Piece} : l.kind.pattern? = some p →
      p.Fits l.text.toList → (∀ c ∈ (spell ps).head?, p.prolongs l.text.toList c = false) →
      Munched ps → Munched (.lexeme l :: ps)
  | stray {c : Char} {ps : List Piece} :
      (∀ (k : Kind) p, k.pattern? = some p → p.starts c = false) → Munched ps →
      Munched (.stray c :: ps)

theorem spell_append (ps qs : List Piece) : spell (ps ++ qs) = spell ps ++ spell qs :=
  List.flatMap_append

/-- Pieces can be followed by others, if these begin with a character that
    prolongs nothing. -/
theorem Munched.append {ps qs : List Piece} (hps : Munched ps) (hqs : Munched qs)
    (hhead : ∀ c ∈ (spell qs).head?, c.isAlphanum = false ∧ c ≠ '.') : Munched (ps ++ qs) := by
  induction hps with
  | nil => exact hqs
  | @lexeme l p ps hk hfits hnext _ ih =>
    refine .lexeme hk hfits (fun c hc => ?_) ih
    rw [List.append_eq, spell_append, List.head?_append, Option.mem_def,
      Option.or_eq_some_iff] at hc
    rcases hc with hc | ⟨-, hc⟩
    · exact hnext c hc
    · exact p.prolongs_of_not_alphanum (hhead c hc).1 (hhead c hc).2 _
  | stray hc _ ih => exact .stray hc ih

/-- What is split from a text that a digit stands before is, with this digit,
    a number that the rest does not prolong. -/
theorem fits_splitNumber {c : Char} (hc : c.isDigit = true) (cs : List Char) :
    Pattern.decimal.Fits (c :: (splitNumber cs).1) ∧
      ∀ d ∈ (splitNumber cs).2.head?,
        Pattern.decimal.prolongs (c :: (splitNumber cs).1) d = false := by
  have hds : ∀ d ∈ c :: cs.takeWhile Char.isDigit, d.isDigit = true := by
    intro d hd
    rcases List.mem_cons.1 hd with rfl | hd
    · exact hc
    · exact List.mem_takeWhile_imp hd
  have hpoint : '.' ∉ c :: cs.takeWhile Char.isDigit := Pattern.not_mem_point hds
  unfold splitNumber
  split
  · rename_i es hes
    refine ⟨.fraction (List.cons_ne_nil _ _) hds fun d hd => List.mem_takeWhile_imp hd,
      fun d hd => ?_⟩
    simp [Pattern.prolongs, head_dropWhile_eq_false d hd]
  · rename_i hno
    refine ⟨.whole (List.cons_ne_nil _ _) hds, fun d hd => ?_⟩
    have hd' : d ≠ '.' := by
      rintro rfl
      obtain ⟨es, hes⟩ := List.head?_eq_some_iff.1 (Option.mem_def.1 hd)
      exact hno _ hes
    simp [Pattern.prolongs, head_dropWhile_eq_false d hd, hd']

theorem pattern_ofChar {c : Char} {k : Kind} (h : Kind.ofChar? c = some k) :
    k.pattern? = some (.only c) := by
  unfold Kind.ofChar? at h
  split at h <;> cases h <;> rfl

theorem starts_eq_false {c : Char} (ha : ¬ c.isAlpha = true) (hd : ¬ c.isDigit = true)
    (ho : Kind.ofChar? c = none) {k : Kind} {p : Pattern} (hk : k.pattern? = some p) :
    p.starts c = false := by
  cases p with
  | name => simpa [Pattern.starts] using ha
  | decimal => simpa [Pattern.starts] using hd
  | only d =>
    have hcd : c ≠ d := by
      rintro rfl
      rcases k with _ | _ | ⟨⟨_ | _ | _ | _⟩ | _⟩ | _ | _ <;> cases hk <;> cases ho
    simp [Pattern.starts, hcd]

/-- **Reading in one pass takes as much as can be taken.** -/
theorem munched_munch (cs : List Char) : Munched (munch cs) := by
  fun_induction munch cs with
  | case1 => exact .nil
  | case2 c cs hc ih =>
    refine .lexeme rfl ?_ ?_ ih
    · rw [String.toList_ofList]
      exact .name hc fun d hd => List.mem_takeWhile_imp hd
    · rw [spell_munch]
      exact head_dropWhile_eq_false
  | case3 c cs _ hc ih =>
    refine .lexeme rfl ?_ ?_ ih
    · rw [String.toList_ofList]
      exact (fits_splitNumber hc cs).1
    · rw [String.toList_ofList, spell_munch]
      exact (fits_splitNumber hc cs).2
  | case4 c cs _ _ k hk ih =>
    refine .lexeme (pattern_ofChar hk) ?_ (fun _ _ => rfl) ih
    simpa using Pattern.Fits.only c
  | case5 c cs ha hd ho ih => exact .stray (fun k p hk => starts_eq_false ha hd ho hk) ih

end Reckon
