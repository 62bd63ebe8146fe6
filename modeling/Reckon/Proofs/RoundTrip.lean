/-
  Reckon — the text of a formula is parsed as this formula.

  * `squeeze` takes the blanks out of a text;
  * `grouped_single`, `grouped_pair`: what one factor, or two factors with an
    operator between them, stand for;
  * `exists_written`: without its blanks, the text of a formula is that of a
    single factor which stands for the formula;
  * `parse_squeeze_text`: so it is parsed as the formula, and different
    formulas have different texts.
-/
import Reckon.Proofs.Leaves

namespace Reckon

/-! ## Texts without blanks -/

/-- A text without its blanks. -/
def squeeze (s : String) : String :=
  String.ofList (s.toList.filter (· ≠ blank))

theorem squeeze_append (s t : String) : squeeze (s ++ t) = squeeze s ++ squeeze t := by
  simp [squeeze]

theorem squeeze_eq_self {s : String} (h : blank ∉ s.toList) : squeeze s = s := by
  have hfilter : s.toList.filter (· ≠ blank) = s.toList := by
    refine List.filter_eq_self.2 fun c hc => decide_eq_true ?_
    rintro rfl
    exact h hc
  rw [squeeze, hfilter, String.ofList_toList]

theorem Lexeme.Fits.blank_not_mem {l : Lexeme} (h : l.Fits) : blank ∉ l.text.toList := by
  intro hb
  have := h.isAllowed blank hb
  revert this
  decide

/-! ## Literals of operands -/

theorem readNumber_text (m : Magnitude) :
    readNumber (Binary64.finite false m).text = .ok (.finite false m) := by
  rw [readNumber, read_text]
  rfl

theorem exists_literal {a : Operand} (h : a.Printable) :
    ∃ l : Literal, l.operand = a ∧ l.text = a.text := by
  cases a with
  | number x =>
    obtain ⟨m, rfl⟩ := h
    exact ⟨.number _ _ (fits_text m) (readNumber_text m), rfl, rfl⟩
  | var name => exact ⟨.var name h, rfl, rfl⟩

theorem squeeze_text (l : Literal) : squeeze l.text = l.text :=
  squeeze_eq_self ((Symbol.operand l).fits_lexeme.blank_not_mem)

/-! ## Levels of one or two factors -/

section Levels

variable {α : Type} {e : Written α} {x y : Factor α}

theorem grouped_single (h : e.level = ⟨x, []⟩) : e.grouped = Form.factor.expr x := by
  rw [Written.grouped, h]
  rfl

theorem grouped_pair {op : BinaryOp} (h : e.level = ⟨x, [(op, y)]⟩) :
    e.grouped = .binary op (Form.factor.expr x) (Form.factor.expr y) := by
  rw [Written.grouped, h]
  cases op <;> rfl

end Levels

/-! ## The round trip -/

/-- **The text of a formula without its blanks** is that of a single factor
    which stands for the formula. -/
theorem exists_written {f : Formula} (h : f.Printable) :
    ∃ e : Written Literal, e.text = squeeze f.text ∧
      ∃ x, (e.map Literal.operand).level = ⟨x, []⟩ ∧ Form.factor.expr x = f := by
  induction f with
  | leaf a =>
    obtain ⟨l, rfl, htext⟩ := exists_literal (h a (List.mem_singleton_self a))
    refine ⟨.operand l, ?_, _, rfl, rfl⟩
    rw [Written.text, ← squeeze_text, htext]
    rfl
  | negate f ih =>
    obtain ⟨e, htext, x, hlevel, hx⟩ := ih h
    refine ⟨.negate (.group e), ?_, _, rfl, ?_⟩
    · simp only [Written.text, htext, Formula.text, Expr.render, squeeze_append]
      rfl
    · have hgrouped := grouped_single hlevel
      rw [hx] at hgrouped
      change Expr.negate (e.map Literal.operand).grouped = _
      rw [hgrouped]
  | binary op f g ihf ihg =>
    obtain ⟨d, hd, x, hlevelx, hx⟩ := ihf fun a ha => h a (List.mem_append_left _ ha)
    obtain ⟨e, he, y, hlevely, hy⟩ := ihg fun a ha => h a (List.mem_append_right _ ha)
    refine ⟨.group (.binary op d e), ?_, _, rfl, ?_⟩
    · have hop : squeeze op.symbol.toString = op.symbol.toString := by cases op <;> rfl
      have hblank : squeeze " " = "" := rfl
      have hopen : squeeze "(" = "(" := rfl
      have hclose : squeeze ")" = ")" := rfl
      simp only [Written.text, hd, he, Formula.text, Expr.render, squeeze_append, hop, hblank,
        hopen, hclose, String.empty_append, String.append_assoc]
    · have hlevel : (Written.map Literal.operand (.binary op d e)).level = ⟨x, [(op, y)]⟩ := by
        rw [Written.map, Written.level, hlevelx, hlevely]
        rfl
      have hgrouped := grouped_pair hlevel
      rw [hx, hy] at hgrouped
      exact hgrouped

theorem parse_squeeze {f : Formula} (h : f.Printable) :
    Formula.parse (squeeze f.text) = .ok f := by
  obtain ⟨e, htext, x, hlevel, hx⟩ := exists_written h
  obtain ⟨ts, htokens, hlexemes⟩ := tokenize_text e
  rw [← htext, Formula.parse_of_lexemes htokens hlexemes, grouped_single hlevel, hx]

/-- **Writing a formula and parsing it gives the formula back.**  This holds of
    every formula whose numbers are finite and without a sign and whose names
    are names, in particular of every formula that was parsed, and so the
    formulas that are parsed can be told apart by their texts. -/
theorem parse_squeeze_text :
    (∀ f : Formula, f.Printable → Formula.parse (squeeze f.text) = .ok f) ∧
    (∀ (text : String) (f : Formula), Formula.parse text = .ok f →
      Formula.parse (squeeze f.text) = .ok f) ∧
    (∀ (s t : String) (f g : Formula), Formula.parse s = .ok f → Formula.parse t = .ok g →
      f.text = g.text → f = g) := by
  refine ⟨fun f => parse_squeeze, fun text f h => parse_squeeze (printable_of_parse h), ?_⟩
  intro s t f g hf hg htext
  have hf' := parse_squeeze (printable_of_parse hf)
  have hg' := parse_squeeze (printable_of_parse hg)
  rw [htext, hg'] at hf'
  exact (Except.ok.inj hf').symm

theorem parse_squeeze_examples :
    Formula.parse "(x*0)" =
        .ok (.binary .mul (.leaf (.var "x")) (.leaf (.number (.finite false .zero)))) ∧
      Formula.parse "((x/-(-(y)))/z)" = .ok (.binary .div
        (.binary .div (.leaf (.var "x")) (.negate (.negate (.leaf (.var "y")))))
        (.leaf (.var "z"))) := by
  refine ⟨?_, ?_⟩
  · have hprintable : Formula.Printable
        (.binary .mul (.leaf (.var "x")) (.leaf (.number (.finite false .zero)))) := by
      intro a ha
      rcases List.mem_cons.1 ha with rfl | ha
      · exact .name (by decide) (by simp)
      · rw [List.mem_singleton.1 ha]
        exact ⟨_, rfl⟩
    have htext : squeeze (Formula.text
        (.binary .mul (.leaf (.var "x")) (.leaf (.number (.finite false .zero))))) = "(x*0)" := by
      decide +kernel
    have hparse := parse_squeeze_text.1 _ hprintable
    rwa [htext] at hparse
  · have hparse : Formula.parse "x/--y/z" = .ok (.binary .div
        (.binary .div (.leaf (.var "x")) (.negate (.negate (.leaf (.var "y")))))
        (.leaf (.var "z"))) := by cbv
    have htext : squeeze (Formula.text (.binary .div (.binary .div (.leaf (.var "x"))
        (.negate (.negate (.leaf (.var "y"))))) (.leaf (.var "z")))) = "((x/-(-(y)))/z)" := by
      decide +kernel
    have hsqueeze := parse_squeeze_text.2.1 "x/--y/z" _ hparse
    rwa [htext] at hsqueeze

end Reckon
