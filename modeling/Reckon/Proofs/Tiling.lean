/-
  Reckon — how tokens lie in a text.

  * `Tiles text ts`: the tokens lie one behind the other, from the first byte
    of the text to the last, and each has the bytes between its ends;
  * `layout` puts lexemes one behind the other; the tokens come to tile the
    text that the lexemes are joined to (`tiles_layout`);
  * `layout_of_scan`: what is scanned has been laid out in this way, and
    `beside_of_munched` tells what can be side by side in it;
  * `scan_image`: just the lexemes that fit and can be side by side are what
    texts are scanned into.
-/
import Reckon.Proofs.Splicing

namespace Reckon

/-! ## Bytes -/

theorem size_utf8Encode (cs : List Char) : cs.utf8Encode.size = byteLength cs := by
  induction cs with
  | nil => rfl
  | cons c cs ih =>
    rw [List.utf8Encode_cons, ByteArray.size_append, ih, List.utf8Encode_singleton,
      List.size_toByteArray, String.length_utf8EncodeChar, byteLength_cons]

theorem byteLength_toList (s : String) : byteLength s.toList = s.utf8ByteSize := by
  rw [← size_utf8Encode, String.utf8Encode_toList, String.size_toByteArray]

theorem extract_middle (before cs after : ByteArray) :
    (before ++ cs ++ after).extract before.size (before.size + cs.size) = cs := by
  have hskip : (before ++ (cs ++ after)).extract (before.size + 0) (before.size + cs.size) =
      (cs ++ after).extract 0 cs.size := ByteArray.extract_append_size_add
  rw [ByteArray.append_assoc]
  exact hskip.trans (ByteArray.extract_append_eq_left rfl)

/-! ## Tokens that tile a text -/

/-- A token has the bytes of a text that are between its ends. -/
structure Token.Covers (text : String) (t : Token) : Prop where
  stop_eq : t.stop = t.start + t.text.utf8ByteSize
  bytes : text.toByteArray.extract t.start t.stop = t.text.toByteArray

/-- Tokens lie in a text one behind the other and leave nothing out. -/
structure Tiles (text : String) (ts : List Token) : Prop where
  first : ts.head?.map Token.start = some 0
  next : ts.IsChain fun s t => t.start = s.stop
  last : ts.getLast?.map Token.stop = some text.utf8ByteSize
  covers : ∀ t ∈ ts, t.Covers text

/-! ## Lexemes laid out -/

/-- Lexemes as tokens, one behind the other from the byte `start` on. -/
def layout (start : Nat) : List Lexeme → List Token
  | [] => []
  | l :: ls =>
    let stop := start + l.text.utf8ByteSize
    ⟨l.kind, l.text, start, stop⟩ :: layout stop ls

theorem joinText_cons (l : Lexeme) (ls : List Lexeme) :
    joinText (l :: ls) = l.text ++ joinText ls := by
  rw [joinText, List.map_cons, String.join_cons, joinText]

theorem locate_map_lexeme (start : Nat) (ls : List Lexeme) :
    locate start (ls.map .lexeme) = layout start ls := by
  induction ls generalizing start with
  | nil => rfl
  | cons l ls ih => rw [List.map_cons, locate, layout, byteLength_toList, ih]

theorem next_layout (start : Nat) (ls : List Lexeme) :
    (layout start ls).IsChain fun s t => t.start = s.stop := by
  induction ls generalizing start with
  | nil => exact .nil
  | cons l ls ih =>
    refine List.isChain_cons.2 ⟨fun t ht => ?_, ih _⟩
    cases ls with
    | nil => cases ht
    | cons m ls => cases ht; rfl

theorem last_layout (start : Nat) {ls : List Lexeme} (h : ls ≠ []) :
    (layout start ls).getLast?.map Token.stop = some (start + (joinText ls).utf8ByteSize) := by
  induction ls generalizing start with
  | nil => exact absurd rfl h
  | cons l ls ih =>
    rw [joinText_cons, String.utf8ByteSize_append, ← Nat.add_assoc]
    cases ls with
    | nil => rfl
    | cons m ls => exact ih (start + l.text.utf8ByteSize) (List.cons_ne_nil m ls)

/-- Behind any text, the lexemes cover the bytes of the text that they are
    joined to. -/
theorem covers_layout (before : String) (ls : List Lexeme) :
    ∀ t ∈ layout before.utf8ByteSize ls, t.Covers (before ++ joinText ls) := by
  induction ls generalizing before with
  | nil => nofun
  | cons l ls ih =>
    have hjoin : before ++ joinText (l :: ls) = before ++ l.text ++ joinText ls := by
      rw [joinText_cons, String.append_assoc]
    intro t ht
    rw [hjoin]
    rcases List.mem_cons.1 ht with rfl | ht
    · refine ⟨rfl, ?_⟩
      rw [String.toByteArray_append, String.toByteArray_append]
      exact extract_middle ..
    · rw [← String.utf8ByteSize_append] at ht
      exact ih (before ++ l.text) t ht

/-- **Lexemes that are laid out** tile the text that they are joined to. -/
theorem tiles_layout {ls : List Lexeme} (h : ls ≠ []) : Tiles (joinText ls) (layout 0 ls) where
  first := by
    cases ls with
    | nil => exact absurd rfl h
    | cons l ls => rfl
  next := next_layout 0 ls
  last := by rw [last_layout 0 h, Nat.zero_add]
  covers := by
    have hcovers := covers_layout "" ls
    rwa [String.empty_append] at hcovers

/-! ## What can be side by side -/

/-- Where a token does not prolong the text before it, it may come next. -/
theorem beside_of_prolongs {j k : Kind} {p q : Pattern} (hj : j.pattern? = some p)
    (hk : k.pattern? = some q) {c : Char} (hc : q.starts c = true) {cs : List Char}
    (h : p.prolongs cs c = false) : j.Beside k := by
  intro hjop hkop
  have halnum : c.isAlphanum = true := by
    cases k with
    | var => cases hk; exact isAlphanum_of_isAlpha hc
    | number => cases hk; exact isAlphanum_of_isDigit hc
    | operator | openParen | closeParen => cases hkop
  cases j with
  | var =>
    cases hj
    exact absurd halnum (Bool.eq_false_iff.1 h)
  | number =>
    cases hj
    refine ⟨rfl, ?_⟩
    cases k with
    | var => rfl
    | number =>
      cases hk
      simp only [Pattern.prolongs, Bool.or_eq_false_iff] at h
      exact absurd hc (Bool.eq_false_iff.1 h.1)
    | operator | openParen | closeParen => cases hkop
  | operator | openParen | closeParen => cases hjop

/-- **In what cannot be cut otherwise**, operands side by side are a number and
    a name behind it. -/
theorem beside_of_munched {ls : List Lexeme} (h : Munched (ls.map .lexeme)) :
    (ls.map Lexeme.kind).IsChain Kind.Beside := by
  induction ls with
  | nil => exact .nil
  | cons l ls ih =>
    cases h with
    | @lexeme _ p _ hp _ hnext hls =>
      refine List.isChain_cons.2 ⟨fun k hk => ?_, ih hls⟩
      cases ls with
      | nil => cases hk
      | cons m ls =>
        cases hk
        obtain ⟨q, hq, hm⟩ := hls.fits m (List.mem_cons_self ..)
        obtain ⟨c, cs, hcs⟩ := List.exists_cons_of_ne_nil hm.ne_nil
        have hstart : q.starts c = true := hm.starts_head c (by rw [hcs]; rfl)
        refine beside_of_prolongs hp hq hstart (hnext c ?_)
        rw [List.map_cons, spell, List.flatMap_cons, Piece.chars, hcs]
        rfl

/-! ## Scanning -/

/-- **What is scanned has been laid out**, and cannot be cut otherwise. -/
theorem layout_of_scan {text : String} {ts : List Token} (h : scan text = .ok ts) :
    ts ≠ [] ∧ text = joinText (ts.map Token.lexeme) ∧ ts = layout 0 (ts.map Token.lexeme) ∧
      Munched ((ts.map Token.lexeme).map .lexeme) := by
  obtain ⟨hne, hmunched, -⟩ := spells_of_scan h
  obtain ⟨-, hstray, hlocate⟩ := lexemes_of_scan h
  refine ⟨fun hnil => hne (by rw [hnil]; rfl), ?_, ?_, hmunched⟩
  · rw [joinText_map_lexeme, join_text_of_scan h]
  · have hpieces := map_lexeme_of_no_stray hstray 0
    rw [← locate_map_lexeme, hlocate, hpieces]

/-- **What texts are scanned into.**  Tokens that are found tile the text, each
    fits the pattern of its kind, and operands are side by side only where a
    name comes behind a number.  And whatever texts of these kinds fit and can
    be side by side like this, to scan what they are joined to gives them back,
    one behind the other. -/
theorem scan_image :
    (∀ text ts, scan text = .ok ts →
      Tiles text ts ∧ (∀ t ∈ ts, t.kind ∈ Kind.sweepOrder ∧ t.lexeme.Fits) ∧
        (ts.map Token.kind).IsChain Kind.Beside) ∧
    ∀ ls : List Lexeme, ls ≠ [] → (∀ l ∈ ls, l.kind ∈ Kind.sweepOrder ∧ l.Fits) →
      (ls.map Lexeme.kind).IsChain Kind.Beside → scan (joinText ls) = .ok (layout 0 ls) := by
  constructor
  · intro text ts h
    obtain ⟨hne, htext, hlayout, hmunched⟩ := layout_of_scan h
    have hls : ts.map Token.lexeme ≠ [] := fun hnil => hne (List.map_eq_nil_iff.1 hnil)
    refine ⟨?_, fun t ht => ?_, ?_⟩
    · have htiles := tiles_layout hls
      rwa [← htext, ← hlayout] at htiles
    · have hfits := hmunched.fits t.lexeme (List.mem_map_of_mem ht)
      have ⟨p, hp, _⟩ := hfits
      exact ⟨mem_sweepOrder hp, hfits⟩
    · rw [← map_kind_lexeme]
      exact beside_of_munched hmunched
  · intro ls hne hfits hchain
    rw [← locate_map_lexeme]
    exact scan_lexemes hne (fun l hl => (hfits l hl).2) hchain (toList_joinText ls)

/-- A number whose point stands before a name, and digits that end a name. -/
theorem scan_image_point :
    let ls : List Lexeme := [⟨.number, "4."⟩, ⟨.var, "x2"⟩, ⟨.operator (.binary .sub), "-"⟩,
      ⟨.number, "10"⟩]
    scan "4.x2-10" = .ok (layout 0 ls) ∧ Tiles "4.x2-10" (layout 0 ls) ∧
      (ls.map Lexeme.kind).IsChain Kind.Beside := by
  intro ls
  obtain ⟨himage, hconverse⟩ := scan_image
  have hscan : scan "4.x2-10" = .ok (layout 0 ls) :=
    hconverse ls (List.cons_ne_nil _ _) (by decide +kernel) (by decide)
  obtain ⟨htiles, -, hchain⟩ := himage _ _ hscan
  exact ⟨hscan, htiles, hchain⟩

end Reckon
