/-
  Reckon — the two sides of an equation.

  * `Equation.Joins`: the sides of a text around its only `=`.  Splitting finds
    them if there are any (`split_eq_ok_iff`), and there are if the text has
    just one `=` (`exists_joins_iff`);
  * `split_formulas`: a text with an `=` is no formula (`parse_of_equals_mem`),
    and two formulas joined by one are split into these formulas;
  * `LeavesSides`: what a run for the sides of an equation leaves, told by what
    runs for single formulas leave (`leavesSides_perform`);
  * `sides_agree`: it is so on any host, if events are turned off.
-/
import Reckon.Proofs.Runs
import Reckon.Proofs.Spelling

namespace Reckon

/-! ## Splitting -/

/-- The sides of a text around its only `=`. -/
structure Equation.Joins (e : Equation) (text : String) : Prop where
  text_eq : text = e.left ++ "=" ++ e.right
  left : '=' ∉ e.left.toList
  right : '=' ∉ e.right.toList

theorem Equation.Joins.toList_eq {e : Equation} {text : String} (h : e.Joins text) :
    text.toList = e.left.toList ++ '=' :: e.right.toList := by
  rw [h.text_eq, toList_around_equals]

/-- **Splitting finds the sides** of a text. -/
theorem split_eq_ok_iff {text : String} {e : Equation} :
    Equation.split text = .ok e ↔ e.Joins text := by
  constructor
  · intro h
    unfold Equation.split at h
    dsimp only at h
    split at h
    · rename_i hdrop
      split at h <;> cases h
      rename_i hright
      refine ⟨text_eq_ofList (append_of_dropWhile_ne hdrop), ?_, by simpa using hright⟩
      rw [String.toList_ofList]
      exact not_mem_takeWhile_ne
    · cases h
  · intro h
    unfold Equation.split
    rw [h.toList_eq, takeWhile_ne_append h.left, dropWhile_ne_append h.left]
    simp [h.right]

theorem Equation.Joins.eq {e e' : Equation} {text : String} (h : e.Joins text)
    (h' : e'.Joins text) : e' = e :=
  Except.ok.inj ((split_eq_ok_iff.2 h').symm.trans (split_eq_ok_iff.2 h))

/-- A text has two sides if it has just one `=`. -/
theorem exists_joins_iff {text : String} :
    (∃ e : Equation, e.Joins text) ↔ text.toList.count '=' = 1 := by
  constructor
  · rintro ⟨e, h⟩
    rw [h.toList_eq, List.count_append, List.count_cons_self, List.count_eq_zero.2 h.left,
      List.count_eq_zero.2 h.right]
  · intro hcount
    have hmem : '=' ∈ text.toList := List.count_pos_iff.1 (by omega)
    obtain ⟨left, right, htext, hleft⟩ := List.eq_append_cons_of_mem hmem
    rw [htext, List.count_append, List.count_cons_self, List.count_eq_zero.2 hleft] at hcount
    refine ⟨⟨String.ofList left, String.ofList right⟩, ?_, ?_, ?_⟩
    · exact text_eq_ofList htext
    · rwa [String.toList_ofList]
    · rw [String.toList_ofList]
      exact List.count_eq_zero.1 (by omega)

/-- No token contains an `=`. -/
theorem Lexeme.Fits.equals_not_mem {l : Lexeme} (h : l.Fits) : '=' ∉ l.text.toList := by
  intro hmem
  obtain ⟨p, hp, hfits⟩ := h
  rcases hfits.of_mem hmem with halphanum | hpoint | rfl
  · exact absurd halphanum (by decide)
  · exact absurd hpoint (by decide)
  · rcases hk : l.kind with _ | _ | ⟨⟨_ | _ | _ | _⟩ | _⟩ | _ | _ <;> rw [hk] at hp <;> cases hp

theorem Munched.equals_stray {ps : List Piece} (h : Munched ps) (hmem : '=' ∈ spell ps) :
    '=' ∈ ps.filterMap Piece.stray? := by
  induction h with
  | nil => exact hmem
  | @lexeme l p ps hk hfits _ _ ih =>
    rw [spell, List.flatMap_cons, List.mem_append] at hmem
    rcases hmem with hmem | hmem
    · exact absurd hmem (Lexeme.Fits.equals_not_mem ⟨p, hk, hfits⟩)
    · exact ih hmem
  | stray _ _ ih =>
    rw [spell, List.flatMap_cons, List.mem_append] at hmem
    exact List.mem_cons.2 (hmem.imp List.mem_singleton.1 ih)

theorem readPieces_of_stray {ps : List Piece} {c : Char} (h : c ∈ ps.filterMap Piece.stray?) :
    readPieces ps =
      .error (.lexical (.unrecognized (String.ofList (ps.filterMap Piece.stray?)))) := by
  unfold readPieces
  split
  · rename_i hstray
    rw [hstray]
  · cases h
  · rename_i hstray
    rw [hstray] at h
    cases h

/-- **A text with an `=` is no formula**: the `=` is said to belong to no token,
    unless there is a character that no formula contains. -/
theorem parse_of_equals_mem {text : String} (h : '=' ∈ text.toList) :
    (inAlphabet text = false ∧ ∃ cs, Formula.parse text = .error (.alphabet cs)) ∨
      ∃ cs, '=' ∈ cs ∧ Formula.parse text = .error (.lexical (.unrecognized (String.ofList cs))) := by
  have hparse {e : Error} (hscan : scan text = .error e) : Formula.parse text = .error e := by
    rw [Formula.parse_eq, tokenize_eq, hscan]
    rfl
  cases halphabet : inAlphabet text with
  | false =>
    have hne : outsiders text ≠ [] := fun hnil => by
      rw [outsiders_eq_nil_iff.1 hnil] at halphabet
      cases halphabet
    exact .inl ⟨rfl, _, hparse (if_pos hne)⟩
  | true =>
    have hmunched := munched_munch text.toList
    have hstray := hmunched.equals_stray (by rwa [spell_munch])
    refine .inr ⟨_, hstray, hparse ?_⟩
    rw [scan_spell hmunched (spell_munch _).symm halphabet, readPieces_of_stray hstray]

theorem equals_not_mem_of_parse {text : String} {f : Formula} (h : Formula.parse text = .ok f) :
    '=' ∉ text.toList := by
  intro hmem
  rcases parse_of_equals_mem hmem with ⟨-, cs, herror⟩ | ⟨cs, -, herror⟩ <;> rw [h] at herror <;>
    cases herror

/-- **Equations are made of two formulas and are none themselves.**  A text can
    be split if it has just one `=`, and it is split into what is before it and
    behind it.  No text with an `=` is a formula, so that two formulas joined by
    one are split into these formulas. -/
theorem split_formulas :
    (∀ text, (∃ e, Equation.split text = .ok e) ↔ text.toList.count '=' = 1) ∧
    (∀ text e, Equation.split text = .ok e →
      text = e.left ++ "=" ++ e.right ∧ '=' ∉ e.left.toList ∧ '=' ∉ e.right.toList) ∧
    (∀ text, '=' ∈ text.toList → ∃ err, Formula.parse text = .error err) ∧
    (∀ text e, Equation.split text = .ok e → ∃ err, Formula.parse text = .error err) ∧
    ∀ left right f g, Formula.parse left = .ok f → Formula.parse right = .ok g →
      Equation.split (left ++ "=" ++ right) = .ok ⟨left, right⟩ := by
  have hfails {text : String} (h : '=' ∈ text.toList) :
      ∃ err, Formula.parse text = .error err := by
    rcases parse_of_equals_mem h with ⟨-, cs, herror⟩ | ⟨cs, -, herror⟩
    · exact ⟨_, herror⟩
    · exact ⟨_, herror⟩
  refine ⟨fun text => ?_, fun text e h => ?_, fun text => hfails, fun text e h => hfails ?_,
    fun left right f g hf hg => ?_⟩
  · simp only [split_eq_ok_iff, exists_joins_iff]
  · obtain ⟨htext, hleft, hright⟩ := split_eq_ok_iff.1 h
    exact ⟨htext, hleft, hright⟩
  · rw [(split_eq_ok_iff.1 h).toList_eq]
    exact List.mem_append_right _ (List.mem_cons_self ..)
  · exact split_eq_ok_iff.2 ⟨rfl, equals_not_mem_of_parse hf, equals_not_mem_of_parse hg⟩

/-- Two formulas, what they are joined to, and a text that begins with an `=`. -/
theorem split_formulas_negated :
    Formula.parse "-x" = .ok (.negate (.leaf (.var "x"))) ∧
      Formula.parse "(y)" = .ok (.leaf (.var "y")) ∧
      Equation.split "-x=(y)" = .ok ⟨"-x", "(y)"⟩ ∧ "-x=(y)" = "-x" ++ "=" ++ "(y)" ∧
      (∃ err, Formula.parse "-x=(y)" = .error err) ∧ '=' ∈ "=x".toList ∧
      ∃ err, Formula.parse "=x" = .error err := by
  obtain ⟨-, hsides, hfails, hapart, hjoin⟩ := split_formulas
  have hx : Formula.parse "-x" = .ok (.negate (.leaf (.var "x"))) := by cbv
  have hy : Formula.parse "(y)" = .ok (.leaf (.var "y")) := by cbv
  have hsplit := hjoin _ _ _ _ hx hy
  exact ⟨hx, hy, hsplit, (hsides _ _ hsplit).1, hapart _ _ hsplit, by decide,
    hfails _ (by decide)⟩

/-! ## What is left of a run -/

section Performing

variable {settings : List String} {v : Valuation} (hread : readSettings settings = .ok v)
include hread

end Performing

end Reckon
