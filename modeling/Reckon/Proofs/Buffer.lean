/-
  Reckon — scanning in a buffer of bytes.

  Blanked characters leave characters, and a match is made of characters, so
  that scanning cannot go wrong half-way.  Here nothing of this is said: what is
  blanked are bytes, so that what is left may be no text (an internal error),
  and tokens are cut from the formula at byte offsets, which may be inside of
  characters or beyond the end (a panic).

  `Buffer.scan_eq`: the tokens and errors are the same all the same, so that
  neither comes up.  The alphabet has characters of one byte only, and so every
  sweep leaves the bytes of the pieces with the swept kinds blanked
  (`sweepKind_eq`).
-/
import Reckon.Proofs.Tiling

namespace Reckon

namespace Buffer

/-! ## The machine -/

/-- Why a scan ends early. -/
inductive Halt where
  | error (kind : ErrorKind) (detail : String)
  /-- offsets that are no ends of characters -/
  | panic

/-- What is told of an error. -/
def Halt.ofError (e : Error) : Halt :=
  .error e.kind e.detail

abbrev Outcome (α : Type) : Type := Except Halt α

def blankByte : UInt8 := 0x20

/-- The bytes with those between two offsets blanked. -/
def fill (line : ByteArray) (start stop : Nat) : Outcome ByteArray :=
  if start ≤ stop ∧ stop ≤ line.size then
    .ok (line.extract 0 start ++ (List.replicate (stop - start) blankByte).toByteArray ++
      line.extract stop line.size)
  else .error .panic

/-- The part of a text between two byte offsets, both at the end of a character. -/
def slice (formula : String) (start stop : Nat) : Outcome String :=
  let bytes := formula.toByteArray
  match String.fromUTF8? (bytes.extract 0 start), String.fromUTF8? (bytes.extract start stop) with
  | some _, some text => if start ≤ stop ∧ stop ≤ bytes.size then .ok text else .error .panic
  | _, _ => .error .panic

/-- Record a match: cut the token from the formula, and blank its bytes. -/
def record (formula : String) (k : Kind) :
    List Token × ByteArray → Nat × Nat → Outcome (List Token × ByteArray)
  | (tokens, line), (start, stop) => do
    let text ← slice formula start stop
    return (tokens ++ [⟨k, text, start, stop⟩], ← fill line start stop)

/-- The tokens of one more kind, and the buffer with them blanked.  What is
    wrong with bytes that are no text, `problem` says. -/
def sweepKind (problem : ByteArray → String) (formula : String) :
    List Token × ByteArray → Kind → Outcome (List Token × ByteArray)
  | (tokens, line), k =>
    match k.pattern? with
    | none => .ok (tokens, line)
    | some _ =>
      match String.fromUTF8? line with
      | none => .error (.error .internal ("scan buffer is not UTF-8: " ++ problem line))
      | some remaining =>
        ((k.find? remaining).getD []).foldlM (record formula k) (tokens, line)

/-- The tokens of a formula, in their order. -/
def scan (problem : ByteArray → String) (formula : String) : Outcome (List Token) :=
  if outsiders formula ≠ [] then .error (.error .alphabet (String.ofList (outsiders formula)))
  else do
    let (tokens, line) ← Kind.sweepOrder.foldlM (sweepKind problem formula) ([], formula.toByteArray)
    let rest := (line.data.toList.filter (· ≠ blankByte)).map fun b => Char.ofNat b.toNat
    if rest ≠ [] then
      .error (.error .lexical
        ("characters " ++ Text.quote (String.ofList rest) ++ " are not recognized"))
    else if tokens = [] then .error (.error .lexical "formula is empty")
    else .ok (tokens.mergeSort fun s t => s.start ≤ t.start)

/-! ## Bytes of texts -/

theorem fromUTF8?_toByteArray (s : String) : String.fromUTF8? s.toByteArray = some s := by
  rw [String.fromUTF8?, dif_pos s.isValidUTF8]
  rfl

theorem slice_append (before text after : String) :
    slice (before ++ text ++ after) before.utf8ByteSize
      (before.utf8ByteSize + text.utf8ByteSize) = .ok text := by
  have hbefore : (before ++ text ++ after).toByteArray.extract 0 before.utf8ByteSize =
      before.toByteArray := by
    rw [String.append_assoc, String.toByteArray_append]
    exact ByteArray.extract_append_eq_left rfl
  have htext : (before ++ text ++ after).toByteArray.extract before.utf8ByteSize
      (before.utf8ByteSize + text.utf8ByteSize) = text.toByteArray := by
    rw [String.toByteArray_append, String.toByteArray_append]
    exact extract_middle ..
  have hsize : before.utf8ByteSize + text.utf8ByteSize ≤ (before ++ text ++ after).toByteArray.size := by
    rw [String.size_toByteArray, String.utf8ByteSize_append, String.utf8ByteSize_append]
    exact Nat.le_add_right ..
  simp only [slice, hbefore, htext, fromUTF8?_toByteArray]
  rw [if_pos ⟨Nat.le_add_right .., hsize⟩]

theorem fill_append (before cs after : ByteArray) :
    fill (before ++ cs ++ after) before.size (before.size + cs.size) =
      .ok (before ++ (List.replicate cs.size blankByte).toByteArray ++ after) := by
  have hbefore : (before ++ cs ++ after).extract 0 before.size = before := by
    rw [ByteArray.append_assoc]
    exact ByteArray.extract_append_eq_left rfl
  have hafter : (before ++ cs ++ after).extract (before.size + cs.size) (before ++ cs ++ after).size =
      after := by
    rw [← ByteArray.size_append]
    exact ByteArray.extract_append_eq_right rfl ByteArray.size_append
  have hsize : before.size + cs.size ≤ (before ++ cs ++ after).size := by
    rw [ByteArray.size_append, ByteArray.size_append]
    exact Nat.le_add_right ..
  rw [fill, if_pos ⟨Nat.le_add_right .., hsize⟩, hbefore, hafter, Nat.add_sub_cancel_left]

theorem utf8Encode_cons_of_size_eq_one {c : Char} (h : c.utf8Size = 1) (cs : List Char) :
    (c :: cs).utf8Encode = [c.toUInt8].toByteArray ++ cs.utf8Encode := by
  rw [List.utf8Encode_cons, List.utf8Encode_singleton, String.utf8EncodeChar_eq_singleton h]
  rfl

theorem utf8Encode_blanks (n : Nat) :
    (List.replicate n blank).utf8Encode = (List.replicate n blankByte).toByteArray := by
  induction n with
  | zero => rfl
  | succ n ih =>
    rw [List.replicate_succ, List.replicate_succ, utf8Encode_cons_of_size_eq_one (by decide), ih,
      ← List.toByteArray_append]
    rfl

theorem ofNat_toUInt8 {c : Char} (h : c.utf8Size = 1) : Char.ofNat c.toUInt8.toNat = c := by
  rw [Char.utf8Size_eq_one_iff, UInt32.le_iff_toNat_le] at h
  change c.toNat ≤ 127 at h
  have hbyte : c.toUInt8.toNat = c.toNat := Nat.mod_eq_of_lt (show c.toNat < 256 by omega)
  rw [hbyte, Char.ofNat_toNat]

/-- Characters of one byte are encoded one by one. -/
theorem data_utf8Encode {cs : List Char} (h : ∀ c ∈ cs, c.utf8Size = 1) :
    cs.utf8Encode.data.toList = cs.map Char.toUInt8 := by
  induction cs with
  | nil => rfl
  | cons c cs ih =>
    rw [utf8Encode_cons_of_size_eq_one (h c (List.mem_cons_self ..)), ByteArray.data_append,
      Array.toList_append, List.toList_data_toByteArray, List.singleton_append, List.map_cons,
      ih fun d hd => h d (List.mem_cons_of_mem _ hd)]

/-- Characters of one byte are what their bytes are read as. -/
theorem rest_eq {cs : List Char} (h : ∀ c ∈ cs, c.utf8Size = 1) :
    ((cs.utf8Encode.data.toList.filter (· ≠ blankByte)).map fun b => Char.ofNat b.toNat) =
      cs.filter (· ≠ blank) := by
  have hblank : ∀ c ∈ cs,
      ((fun b => decide (b ≠ blankByte)) ∘ Char.toUInt8) c = decide (c ≠ blank) := by
    intro c hc
    have hbyte : c.toUInt8 = blankByte ↔ c = blank := by
      constructor
      · intro hbyte
        rw [← ofNat_toUInt8 (h c hc), hbyte]
        rfl
      · rintro rfl
        rfl
    simp only [Function.comp, ne_eq, hbyte]
  rw [data_utf8Encode h, List.filter_map, List.map_map]
  calc ((cs.filter ((· ≠ blankByte) ∘ Char.toUInt8)).map
        ((fun b => Char.ofNat b.toNat) ∘ Char.toUInt8))
      = (cs.filter (· ≠ blank)).map id := by
        rw [List.filter_congr hblank]
        exact List.map_congr_left fun c hc => ofNat_toUInt8 (h c (List.mem_of_mem_filter hc))
    _ = cs.filter (· ≠ blank) := List.map_id _

/-! ## One sweep -/

section Sweep

variable {k : Kind} {done : List Kind} {ps : List Piece} {before : String}

/-- A match of a text that is still in the buffer is recorded and blanked. -/
theorem record_append (before text after : String) {front : ByteArray} (back : ByteArray)
    (hfront : front.size = before.utf8ByteSize) (tokens : List Token) :
    record (before ++ text ++ after) k (tokens, front ++ text.toByteArray ++ back)
        (before.utf8ByteSize, before.utf8ByteSize + text.utf8ByteSize) =
      .ok (tokens ++ [⟨k, text, before.utf8ByteSize, before.utf8ByteSize + text.utf8ByteSize⟩],
        front ++ (List.replicate text.utf8ByteSize blankByte).toByteArray ++ back) := by
  have hfill := fill_append front text.toByteArray back
  rw [hfront, String.size_toByteArray] at hfill
  simp only [record, slice_append, hfill]
  rfl

/-- To record the matches of the kind `k` in the pieces behind a text, whatever
    bytes this text has become, gives the lexemes of this kind and blanks them. -/
def Records (k : Kind) (done : List Kind) (before : String) (ps : List Piece) : Prop :=
  ∀ (front : ByteArray) (tokens : List Token), front.size = before.utf8ByteSize →
    (((locate before.utf8ByteSize ps).filter (·.kind = k)).map fun t => (t.start, t.stop)).foldlM
        (record (before ++ String.ofList (spell ps)) k) (tokens, front ++ (blanked done ps).utf8Encode) =
      .ok (tokens ++ (locate before.utf8ByteSize ps).filter (·.kind = k),
        front ++ (blanked (done ++ [k]) ps).utf8Encode)

theorem utf8Encode_blanked_cons (kinds : List Kind) (front : ByteArray) (piece : Piece) :
    front ++ (blanked kinds (piece :: ps)).utf8Encode =
      front ++ (piece.blanked kinds).utf8Encode ++ (blanked kinds ps).utf8Encode := by
  rw [blanked_cons, List.utf8Encode_append, ByteArray.append_assoc]

theorem append_spell_cons (before : String) (piece : Piece) (ps : List Piece) :
    before ++ String.ofList (spell (piece :: ps)) =
      before ++ String.ofList piece.chars ++ String.ofList (spell ps) := by
  rw [String.append_assoc, ← String.ofList_append]
  rfl

theorem utf8ByteSize_append_chars (before : String) (piece : Piece) :
    (before ++ String.ofList piece.chars).utf8ByteSize =
      before.utf8ByteSize + byteLength piece.chars := by
  rw [String.utf8ByteSize_append, ← byteLength_toList (String.ofList _), String.toList_ofList]

/-- A piece that is no match is passed over. -/
theorem Records.pass {piece : Piece} (h : Records k done (before ++ String.ofList piece.chars) ps)
    (hpiece : ∀ c ∈ piece.chars, c.utf8Size = 1) (hkind : ∀ l, piece = .lexeme l → l.kind ≠ k) :
    Records k done before (piece :: ps) := by
  intro front tokens hfront
  have hsame : piece.blanked (done ++ [k]) = piece.blanked done := by
    cases piece with
    | stray c => rfl
    | lexeme l =>
      simp only [Piece.blanked, List.mem_append, List.mem_singleton, hkind l rfl, or_false]
  have hnone : (locate before.utf8ByteSize (piece :: ps)).filter (·.kind = k) =
      (locate (before ++ String.ofList piece.chars).utf8ByteSize ps).filter (·.kind = k) := by
    rw [utf8ByteSize_append_chars]
    cases piece with
    | stray c => rfl
    | lexeme l => exact List.filter_cons_of_neg (by simpa using hkind l rfl)
  have hlength : byteLength (piece.blanked done) = byteLength piece.chars := by
    cases piece with
    | stray c => rfl
    | lexeme l =>
      rw [Piece.blanked]
      split
      · rw [byteLength_replicate]
        exact (byteLength_eq_length hpiece).symm
      · rfl
  rw [utf8Encode_blanked_cons, utf8Encode_blanked_cons, append_spell_cons, hsame, hnone]
  refine h _ tokens ?_
  rw [ByteArray.size_append, hfront, size_utf8Encode, hlength, utf8ByteSize_append_chars]

/-- A match is recorded and blanked. -/
theorem Records.hit {l : Lexeme} (h : Records k done (before ++ String.ofList (Piece.lexeme l).chars) ps)
    (hpiece : ∀ c ∈ (Piece.lexeme l).chars, c.utf8Size = 1) (hl : l.kind = k) (hdone : k ∉ done) :
    Records k done before (.lexeme l :: ps) := by
  intro front tokens hfront
  have htext : String.ofList (Piece.lexeme l).chars = l.text := String.ofList_toList
  have hlength : l.text.toList.length = l.text.utf8ByteSize := by
    rw [← byteLength_toList]
    exact (byteLength_eq_length hpiece).symm
  have hkept : (Piece.lexeme l).blanked done = l.text.toList := by
    rw [Piece.blanked, if_neg (by rwa [hl])]
  have hblanked : (Piece.lexeme l).blanked (done ++ [k]) =
      List.replicate l.text.utf8ByteSize blank := by
    rw [Piece.blanked, if_pos (by simp [hl]), hlength]
  have hlocate : (locate before.utf8ByteSize (.lexeme l :: ps)).filter (·.kind = k) =
      ⟨k, l.text, before.utf8ByteSize, before.utf8ByteSize + l.text.utf8ByteSize⟩ ::
        (locate (before ++ l.text).utf8ByteSize ps).filter (·.kind = k) := by
    rw [locate, byteLength_toList, String.utf8ByteSize_append,
      List.filter_cons_of_pos (by simpa using hl), hl]
  rw [htext] at h
  rw [utf8Encode_blanked_cons, utf8Encode_blanked_cons, append_spell_cons, hkept, hblanked, hlocate,
    htext, utf8Encode_blanks, String.utf8Encode_toList, List.map_cons, List.foldlM_cons,
    record_append before l.text _ _ hfront, ok_bind]
  have hsize : (front ++ (List.replicate l.text.utf8ByteSize blankByte).toByteArray).size =
      (before ++ l.text).utf8ByteSize := by
    rw [ByteArray.size_append, hfront, List.size_toByteArray, List.length_replicate,
      String.utf8ByteSize_append]
  refine (h _ _ hsize).trans ?_
  rw [List.append_assoc]
  rfl

/-- **Recording the matches of a kind** works in any pieces of narrow
    characters. -/
theorem records (hdone : k ∉ done) (hps : ∀ c ∈ spell ps, c.utf8Size = 1) (before : String) :
    Records k done before ps := by
  induction ps generalizing before with
  | nil =>
    intro front tokens _
    rw [locate, List.filter_nil, List.append_nil]
    rfl
  | cons piece ps ih =>
    have hpiece : ∀ c ∈ piece.chars, c.utf8Size = 1 :=
      fun c hc => hps c (List.mem_append_left _ hc)
    have ih := ih (fun c hc => hps c (List.mem_append_right _ hc)) (before ++ String.ofList piece.chars)
    by_cases hmatch : ∃ l, piece = .lexeme l ∧ l.kind = k
    · obtain ⟨l, rfl, hl⟩ := hmatch
      exact ih.hit hpiece hl hdone
    · exact ih.pass hpiece fun l hpl hl => hmatch ⟨l, hpl, hl⟩

end Sweep

/-! ## All sweeps -/

section Sweeps

variable (problem : ByteArray → String) {k : Kind} {ps : List Piece} {formula : String}
  (h : Munched ps) (hps : ∀ c ∈ spell ps, c.utf8Size = 1) (hformula : formula.toList = spell ps)
include h hps hformula

/-- **One kind more.**  What is left is a text, in which the tokens of the kind
    are found. -/
theorem sweepKind_eq {done : List Kind} {p : Pattern} (hp : k.pattern? = some p) (hdone : k ∉ done)
    (hnames : k = .number → Kind.var ∈ done) (tokens : List Token) :
    sweepKind problem formula (tokens, (blanked done ps).utf8Encode) k =
      .ok (tokens ++ (locate 0 ps).filter (·.kind = k), (blanked (done ++ [k]) ps).utf8Encode) := by
  have htext : String.fromUTF8? (blanked done ps).utf8Encode = some (String.ofList (blanked done ps)) := by
    rw [← String.toByteArray_ofList, fromUTF8?_toByteArray]
  have hfind : k.find? (String.ofList (blanked done ps)) =
      some (((locate 0 ps).filter (·.kind = k)).map fun t => (t.start, t.stop)) := by
    rw [Kind.find?, hp, Option.map_some, String.toList_ofList, sweep_blanked hp hdone hnames h]
  have hrecords := records hdone hps "" ByteArray.empty tokens rfl
  have hbefore : "" ++ String.ofList (spell ps) = formula := by
    rw [String.empty_append, ← hformula, String.ofList_toList]
  simp only [sweepKind, hp, htext, hfind, Option.getD_some]
  rw [hbefore, ByteArray.empty_append, ByteArray.empty_append] at hrecords
  exact hrecords

/-- The sweeps that are left. -/
theorem foldlM_sweepKind {done todo : List Kind} (hsplit : Kind.sweepOrder = done ++ todo)
    (tokens : List Token) :
    todo.foldlM (sweepKind problem formula) (tokens, (blanked done ps).utf8Encode) =
      .ok (tokens ++ todo.flatMap fun k => (locate 0 ps).filter (·.kind = k),
        (blanked Kind.sweepOrder ps).utf8Encode) := by
  induction todo generalizing done tokens with
  | nil =>
    rw [hsplit, List.append_nil, List.flatMap_nil, List.append_nil]
    rfl
  | cons k todo ih =>
    obtain ⟨hsome, hk, hnames⟩ := sweepOrder_split hsplit
    obtain ⟨p, hp⟩ := Option.ne_none_iff_exists'.1 hsome
    rw [List.foldlM_cons, sweepKind_eq problem h hps hformula hp hk hnames, ok_bind,
      ih (by rw [hsplit, List.append_assoc]; rfl), List.flatMap_cons, List.append_assoc]

end Sweeps

theorem utf8Size_of_mem_blanked {kinds : List Kind} {ps : List Piece}
    (hps : ∀ c ∈ spell ps, c.utf8Size = 1) : ∀ c ∈ blanked kinds ps, c.utf8Size = 1 := by
  intro c hc
  obtain ⟨piece, hpiece, hc⟩ := List.mem_flatMap.1 hc
  have hchars : ∀ c ∈ piece.chars, c.utf8Size = 1 :=
    fun c hc => hps c (List.mem_flatMap.2 ⟨piece, hpiece, hc⟩)
  cases piece with
  | stray d => exact hchars c hc
  | lexeme l =>
    rw [Piece.blanked] at hc
    split at hc
    · rw [List.eq_of_mem_replicate hc]
      decide
    · exact hchars c hc

/-- The characters of the alphabet have one byte each. -/
theorem utf8Size_of_isAllowed {c : Char} (h : isAllowed c = true) : c.utf8Size = 1 := by
  rw [isAllowed, Bool.or_eq_true, List.contains_iff_mem] at h
  rcases h with h | h
  · exact utf8Size_of_isAlphanum h
  · simp only [alphabetSymbols, List.mem_cons, List.not_mem_nil, or_false] at h
    rcases h with rfl | rfl | rfl | rfl | rfl | rfl | rfl | rfl <;> decide

/-- **The sweeps together** find the tokens that sweeping characters finds, and
    leave the bytes of what this leaves, which are one for each character. -/
theorem foldlM_sweepOrder {formula : String} (h : inAlphabet formula = true)
    (problem : ByteArray → String) :
    ∃ tokens line, Kind.sweepOrder.foldl Reckon.sweepKind ([], formula.toList) = (tokens, line) ∧
      Kind.sweepOrder.foldlM (sweepKind problem formula) ([], formula.toByteArray) =
        .ok (tokens, line.utf8Encode) ∧ ∀ c ∈ line, c.utf8Size = 1 := by
  have hmunched := munched_munch formula.toList
  have hspell := (spell_munch formula.toList).symm
  have hps : ∀ c ∈ spell (munch formula.toList), c.utf8Size = 1 := by
    rw [← hspell]
    exact fun c hc => utf8Size_of_isAllowed (List.all_eq_true.1 h c hc)
  have hsplit : Kind.sweepOrder = [] ++ Kind.sweepOrder := rfl
  have hchars := foldl_sweepKind hmunched hsplit []
  have hbytes := foldlM_sweepKind problem hmunched hps hspell hsplit []
  rw [blanked_nil, ← hspell] at hchars
  rw [blanked_nil, ← hspell, String.utf8Encode_toList] at hbytes
  exact ⟨_, _, hchars, hbytes, utf8Size_of_mem_blanked hps⟩

/-- **The buffer holds a text at all times, and every match is cut from the
    formula as it stands there.**  The tokens and the errors are those of
    scanning characters, whatever would be said of bytes that are no text. -/
theorem scan_eq (problem : ByteArray → String) (formula : String) :
    scan problem formula = (Reckon.scan formula).mapError Halt.ofError := by
  unfold scan Reckon.scan
  by_cases halphabet : outsiders formula = []
  · obtain ⟨tokens, line, hchars, hbytes, hline⟩ :=
      foldlM_sweepOrder (outsiders_eq_nil_iff.1 halphabet) problem
    rw [if_neg (not_not.2 halphabet), if_neg (not_not.2 halphabet), hbytes, ok_bind, hchars]
    dsimp only
    rw [rest_eq hline]
    by_cases hrest : line.filter (· ≠ blank) = []
    · rw [if_neg (not_not.2 hrest), if_neg (not_not.2 hrest)]
      split <;> rfl
    · rw [if_pos hrest, if_pos hrest]
      rfl
  · rw [if_pos halphabet, if_pos halphabet]
    rfl

end Buffer

end Reckon
