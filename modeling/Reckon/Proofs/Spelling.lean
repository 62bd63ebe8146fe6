/-
  Reckon — formulas as texts.

  * `scan_lexemes`: a text that is spelled by lexemes which can be side by side
    is scanned into them;
  * `Literal` is an operand as it is written, and `Written.text` the text of a
    formula over literals;
  * `tokenize_text`: its tokens are those that it was spelled with;
  * `parse_text`: it is parsed as what the grouping of formulas says.
-/
import Reckon.Formula.Reading
import Reckon.Proofs.Grammar
import Reckon.Proofs.Grouping
import Reckon.Proofs.Sweeping

namespace Reckon

/-! ## Lexemes side by side -/

/-- A lexeme whose text fits the pattern of its kind. -/
def Lexeme.Fits (l : Lexeme) : Prop :=
  ∃ p, l.kind.pattern? = some p ∧ p.Fits l.text.toList

instance (l : Lexeme) : Decidable l.Fits :=
  decidable_of_iff (l.kind.pattern?.any (·.Fits l.text.toList)) <| by
    simp only [Option.any_eq_true, decide_eq_true_eq, Lexeme.Fits]

/-- The text that is spelled by lexemes. -/
def spellLexemes (ls : List Lexeme) : List Char :=
  ls.flatMap fun l => l.text.toList

theorem spell_map_lexeme (ls : List Lexeme) : spell (ls.map .lexeme) = spellLexemes ls := by
  unfold spell spellLexemes
  rw [List.flatMap_map]
  rfl

theorem Kind.isOperand_of_pattern {k : Kind} {p : Pattern} (hk : k.pattern? = some p)
    (h : p = .name ∨ p = .decimal) : k.isOperand = true := by
  rcases h with rfl | rfl
  · rw [Kind.pattern_injective hk (rfl : Kind.var.pattern? = _)]
    rfl
  · rw [Kind.pattern_injective hk (rfl : Kind.number.pattern? = _)]
    rfl

/-- Tokens of these kinds can be side by side: two operands only if a number
    comes first and a name behind it. -/
def Kind.Beside (j k : Kind) : Prop :=
  j.isOperand = true → k.isOperand = true → j = .number ∧ k = .var

instance (j k : Kind) : Decidable (j.Beside k) :=
  inferInstanceAs (Decidable (_ → _ → _))

/-- A token that may come next does not prolong a text. -/
theorem prolongs_eq_false {j k : Kind} {p q : Pattern} (hj : j.pattern? = some p)
    (hk : k.pattern? = some q) (h : j.Beside k) {c : Char} (hc : q.starts c = true)
    (cs : List Char) : p.prolongs cs c = false := by
  by_cases hop : j.isOperand = true ∧ k.isOperand = true
  · -- the letter of a name behind a number
    obtain ⟨rfl, rfl⟩ := h hop.1 hop.2
    cases hj
    cases hk
    have hpoint : c ≠ '.' := by
      rintro rfl
      cases hc
    simp [Pattern.prolongs, isDigit_eq_false_of_isAlpha hc, hpoint]
  · cases p with
    | only d => rfl
    | name | decimal =>
      have hj' := Kind.isOperand_of_pattern hj (by simp)
      cases q with
      | name | decimal => exact absurd ⟨hj', Kind.isOperand_of_pattern hk (by simp)⟩ hop
      | only d =>
        obtain ⟨hal, hpoint, -⟩ := Kind.pattern_only hk
        obtain rfl : c = d := by simpa [Pattern.starts] using hc
        exact Pattern.prolongs_of_not_alphanum hal hpoint _ cs

/-- **Lexemes that fit are cut as they were put together**, if they can be side
    by side. -/
theorem munched_lexemes {ls : List Lexeme} (hfits : ∀ l ∈ ls, l.Fits)
    (hchain : (ls.map Lexeme.kind).IsChain Kind.Beside) : Munched (ls.map .lexeme) := by
  induction ls with
  | nil => exact .nil
  | cons l ls ih =>
    obtain ⟨p, hp, hl⟩ := hfits l (List.mem_cons_self ..)
    obtain ⟨hhead, htail⟩ := List.isChain_cons.1 hchain
    refine .lexeme hp hl ?_ (ih (fun m hm => hfits m (List.mem_cons_of_mem _ hm)) htail)
    intro c hc
    cases ls with
    | nil => cases hc
    | cons m ms =>
      obtain ⟨q, hq, hm⟩ := hfits m (List.mem_cons_of_mem _ (List.mem_cons_self ..))
      have hstart : q.starts c = true := by
        refine hm.starts_head c ?_
        obtain ⟨d, ds, hds⟩ := List.exists_cons_of_ne_nil hm.ne_nil
        rw [List.map_cons, spell, List.flatMap_cons, Piece.chars, hds] at hc
        rw [hds]
        exact hc
      exact prolongs_eq_false hp hq (hhead m.kind rfl) hstart _

theorem Lexeme.Fits.isAllowed {l : Lexeme} (h : l.Fits) :
    ∀ c ∈ l.text.toList, isAllowed c = true := by
  intro c hc
  obtain ⟨p, hp, hfits⟩ := h
  rcases hfits.of_mem hc with hc | rfl | rfl
  · rw [Reckon.isAllowed, hc, Bool.true_or]
  · decide
  · exact (Kind.pattern_only hp).2.2.2.2

theorem map_lexeme_locate (ls : List Lexeme) (start : Nat) :
    (locate start (ls.map .lexeme)).map Token.lexeme = ls := by
  induction ls generalizing start with
  | nil => rfl
  | cons l ls ih => rw [List.map_cons, locate, List.map_cons, ih]; rfl

theorem Munched.fits {ls : List Lexeme} (h : Munched (ls.map .lexeme)) : ∀ l ∈ ls, l.Fits := by
  induction ls with
  | nil => nofun
  | cons l ls ih =>
    cases h with
    | lexeme hk hfits _ hls =>
      intro m hm
      rcases List.mem_cons.1 hm with rfl | hm
      · exact ⟨_, hk, hfits⟩
      · exact ih hls m hm

/-- A text that cannot be cut otherwise than into lexemes is scanned into them. -/
theorem scan_munched {text : String} {ls : List Lexeme} (hne : ls ≠ [])
    (h : Munched (ls.map .lexeme)) (htext : text.toList = spellLexemes ls) :
    scan text = .ok (locate 0 (ls.map .lexeme)) := by
  have halphabet : inAlphabet text = true := by
    refine List.all_eq_true.2 fun c hc => ?_
    rw [htext] at hc
    obtain ⟨l, hl, hc⟩ := List.mem_flatMap.1 hc
    exact (h.fits l hl).isAllowed c hc
  rw [scan_spell h (by rw [htext, spell_map_lexeme]) halphabet]
  have hstray : (ls.map Piece.lexeme).filterMap Piece.stray? = [] := by
    rw [List.filterMap_map]
    exact List.filterMap_eq_nil_iff.2 fun _ _ => rfl
  obtain ⟨l, ms, rfl⟩ := List.exists_cons_of_ne_nil hne
  unfold readPieces
  rw [hstray]
  rfl

/-- **A text that is spelled by lexemes is scanned into them**, if they can be
    side by side. -/
theorem scan_lexemes {text : String} {ls : List Lexeme} (hne : ls ≠ [])
    (hfits : ∀ l ∈ ls, l.Fits) (hchain : (ls.map Lexeme.kind).IsChain Kind.Beside)
    (htext : text.toList = spellLexemes ls) :
    scan text = .ok (locate 0 (ls.map .lexeme)) :=
  scan_munched hne (munched_lexemes hfits hchain) htext

/-! ## Literals -/

/-- An operand as it is written in a formula: a name, or the text of a number
    with its value. -/
inductive Literal where
  | var (name : String) (fits : Pattern.name.Fits name.toList)
  | number (text : String) (x : Binary64) (fits : Pattern.decimal.Fits text.toList)
      (reads : readNumber text = .ok x)

namespace Literal

def text : Literal → String
  | var name _ => name
  | number text _ _ _ => text

/-- The operand that a literal denotes. -/
def operand : Literal → Operand
  | var name _ => .var name
  | number _ x _ _ => .number x

def kind : Literal → Kind
  | var _ _ => .var
  | number _ _ _ _ => .number

end Literal

/-- What a symbol is written as, and the kind that it is resolved to. -/
def Symbol.lexeme : Symbol Literal → Lexeme
  | .operand a => ⟨a.kind, a.text⟩
  | .operator o => ⟨.operator o, o.symbol.toString⟩
  | .openParen => ⟨.openParen, "("⟩
  | .closeParen => ⟨.closeParen, ")"⟩

def Symbol.map {α β : Type} (f : α → β) : Symbol α → Symbol β
  | .operand a => .operand (f a)
  | .operator o => .operator o
  | .openParen => .openParen
  | .closeParen => .closeParen

theorem Symbol.fits_lexeme (s : Symbol Literal) : s.lexeme.raw.Fits := by
  match s with
  | .operand (.var name fits) => exact ⟨.name, rfl, fits⟩
  | .operand (.number text x fits reads) => exact ⟨.decimal, rfl, fits⟩
  | .operator (.binary op) =>
    refine ⟨.only op.symbol, rfl, ?_⟩
    cases op <;> exact .only _
  | .operator .negate => exact ⟨.only '-', rfl, .only _⟩
  | .openParen => exact ⟨.only '(', rfl, .only _⟩
  | .closeParen => exact ⟨.only ')', rfl, .only _⟩

theorem Token.symbol_of_lexeme {t : Token} {s : Symbol Literal} (h : t.lexeme = s.lexeme) :
    t.symbol = .ok (s.map Literal.operand) := by
  have hkind : t.kind = s.lexeme.kind := congrArg Lexeme.kind h
  have htext : t.text = s.lexeme.text := congrArg Lexeme.text h
  unfold Token.symbol
  rw [hkind, htext]
  match s with
  | .operand (.var _ _) | .operator _ | .openParen | .closeParen => rfl
  | .operand (.number text x _ reads) =>
    simp only [Symbol.lexeme, Literal.kind, Literal.text, reads]
    rfl

/-! ## Texts of formulas -/

namespace Written

def map {α β : Type} (f : α → β) : Written α → Written β
  | operand a => operand (f a)
  | group e => group (e.map f)
  | negate e => negate (e.map f)
  | binary op l r => binary op (l.map f) (r.map f)

theorem symbols_map {α β : Type} (f : α → β) (e : Written α) :
    (e.map f).symbols = e.symbols.map (Symbol.map f) := by
  induction e with
  | operand a => rfl
  | group e ih => simp [map, symbols, ih, Symbol.map]
  | negate e ih => simp [map, symbols, ih, Symbol.map]
  | binary op l r ihl ihr => simp [map, symbols, ihl, ihr, Symbol.map]

/-- The text of a formula. -/
def text : Written Literal → String
  | operand a => a.text
  | group e => "(" ++ e.text ++ ")"
  | negate e => "-" ++ e.text
  | binary op l r => l.text ++ op.symbol.toString ++ r.text

/-- The lexemes that a formula is written with. -/
def lexemes (e : Written Literal) : List Lexeme :=
  e.symbols.map Symbol.lexeme

theorem toList_text (e : Written Literal) : e.text.toList = spellLexemes e.lexemes := by
  induction e with
  | operand a => simp [text, lexemes, symbols, spellLexemes, Symbol.lexeme]
  | group e ih =>
    simp only [text, String.toList_append, ih, lexemes, symbols, List.map_cons, List.map_append,
      List.cons_append]
    simp [spellLexemes, Symbol.lexeme]
  | negate e ih =>
    simp only [text, String.toList_append, ih, lexemes, symbols, List.map_cons]
    simp [spellLexemes, Symbol.lexeme, Operator.symbol]
  | binary op l r ihl ihr =>
    simp only [text, String.toList_append, ihl, ihr, lexemes, symbols, List.map_cons,
      List.map_append]
    simp [spellLexemes, Symbol.lexeme, Operator.symbol]

theorem derives (e : Written Literal) : Derives (e.lexemes.map Lexeme.kind) := by
  induction e with
  | operand a =>
    cases a with
    | var => exact .var
    | number => exact .number
  | group e ih =>
    have := ih.group
    simpa [lexemes, symbols, Symbol.lexeme] using this
  | negate e ih =>
    have := ih.negate
    simpa [lexemes, symbols, Symbol.lexeme] using this
  | binary op l r ihl ihr =>
    have := Derives.binary op ihl ihr
    simpa [lexemes, symbols, Symbol.lexeme] using this

end Written

/-! ## Parsing -/

theorem tokenize_eq_ok_iff {text : String} {ts : List Token} :
    tokenize text = .ok ts ↔
      ∃ raw, scan text = .ok raw ∧ checkBalance (resolveMinus raw) = .ok () ∧
        ts = resolveMinus raw := by
  rw [tokenize_eq]
  simp only [bind_eq_ok]
  constructor
  · rintro ⟨raw, hscan, _, hbalance, h⟩
    cases h
    exact ⟨raw, hscan, hbalance, rfl⟩
  · rintro ⟨raw, hscan, hbalance, rfl⟩
    exact ⟨raw, hscan, (), hbalance, rfl⟩

/-- A text is parsed if it has tokens, these are read as symbols, and the
    symbols are taken and finished. -/
theorem Formula.parse_eq_ok_iff {text : String} {f : Formula} :
    Formula.parse text = .ok f ↔
      ∃ ts, tokenize text = .ok ts ∧
        ∃ ss, List.Forall₂ (fun t s => Token.symbol t = .ok s) ts ss ∧
          ∃ b, Build.run Build.empty ss = .ok b ∧ Build.finish b.pending b.operands = .ok f := by
  rw [Formula.parse_eq]
  simp only [Formula.ofTokens, Expr.build, bind_eq_ok, Build.takeAll_eq_ok_iff]
  constructor
  · rintro ⟨ts, htokens, b, ⟨ss, hss, hrun⟩, hfinish⟩
    exact ⟨ts, htokens, ss, hss, b, hrun, hfinish⟩
  · rintro ⟨ts, htokens, ss, hss, b, hrun, hfinish⟩
    exact ⟨ts, htokens, b, ⟨ss, hss, hrun⟩, hfinish⟩

theorem isOperand_raw (k : Kind) : k.raw.isOperand = k.isOperand := by
  rcases k with _ | _ | ⟨_ | _⟩ | _ | _ <;> rfl

theorem Kind.Apart.beside_raw {j k : Kind} (h : j.Apart k) : j.raw.Beside k.raw := by
  intro hj hk
  rw [isOperand_raw] at hj hk
  refine absurd ⟨?_, ?_⟩ h
  · cases j <;> first | rfl | cases hj
  · cases k <;> first | rfl | cases hk

/-- **The tokens of a formula's text** are those it is written with. -/
theorem tokenize_text (e : Written Literal) :
    ∃ ts, tokenize e.text = .ok ts ∧ ts.map Token.lexeme = e.lexemes := by
  have hderives := e.derives
  have hscan : scan e.text = .ok (locate 0 ((e.lexemes.map Lexeme.raw).map .lexeme)) := by
    refine scan_lexemes ?_ ?_ ?_ ?_
    · intro h
      have := List.map_eq_nil_iff.1 h
      rw [this] at hderives
      have := hderives.balanced.operands
      simp at this
    · intro l hl
      obtain ⟨_, hm, rfl⟩ := List.mem_map.1 hl
      obtain ⟨s, -, rfl⟩ := List.mem_map.1 hm
      exact s.fits_lexeme
    · have hraw : (e.lexemes.map Lexeme.raw).map Lexeme.kind =
          (e.lexemes.map Lexeme.kind).map Kind.raw := by
        rw [List.map_map, List.map_map]
        rfl
      rw [hraw]
      exact (List.isChain_map Kind.raw).2 (hderives.apart.imp fun _ _ => Kind.Apart.beside_raw)
    · rw [e.toList_text]
      unfold spellLexemes
      rw [List.flatMap_map]
      rfl
  have hresolved := map_lexeme_resolveMinus hderives (map_lexeme_locate (e.lexemes.map Lexeme.raw) 0)
  rw [← hresolved, List.map_map] at hderives
  exact ⟨_, tokenize_eq_ok_iff.2 ⟨_, hscan, checkBalance_eq_ok_iff.2 hderives.balanced, rfl⟩, hresolved⟩

/-- A text whose tokens are those of a formula is parsed as this formula. -/
theorem Formula.parse_of_lexemes {text : String} {e : Written Literal} {ts : List Token}
    (htokens : tokenize text = .ok ts) (h : ts.map Token.lexeme = e.lexemes) :
    Formula.parse text = .ok (e.map Literal.operand).grouped := by
  have hsymbols : List.Forall₂ (fun t s => Token.symbol t = .ok s) ts
      (e.map Literal.operand).symbols := by
    rw [Written.symbols_map, List.forall₂_map_right_iff]
    have hall : List.Forall₂ (fun t s => t.lexeme = Symbol.lexeme s) ts e.symbols := by
      rw [← List.forall₂_map_right_iff (f := Symbol.lexeme), ← List.forall₂_map_left_iff,
        List.forall₂_eq_eq_eq]
      exact h
    exact hall.imp fun t s => Token.symbol_of_lexeme
  obtain ⟨b, hrun, hfinish⟩ := bind_eq_ok.1 (build_symbols (e.map Literal.operand))
  exact Formula.parse_eq_ok_iff.2 ⟨ts, htokens, _, hsymbols, b, hrun, hfinish⟩

/-- **Parsing is complete and groups as it should.**  The text of every formula
    that the grammar derives, with numbers in the range of binary64, is parsed,
    and what comes out is the expression that it stands for. -/
theorem Formula.parse_text (e : Written Literal) :
    Formula.parse e.text = .ok (e.map Literal.operand).grouped := by
  obtain ⟨ts, htokens, hlexemes⟩ := tokenize_text e
  exact Formula.parse_of_lexemes htokens hlexemes

end Reckon
