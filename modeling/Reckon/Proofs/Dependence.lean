/-
  Reckon — what the value of a formula depends on.

  * `mem_variables`, `pairwise_variables`: the variables of a formula are the
    names among its leaves, in ascending order and each once;
  * `mem_variables_iff_token`: they are the names in the text that it is read
    from.  Such names are ASCII, so that the order of their characters is that
    of their bytes (`bytes_lt_bytes`);
  * `evaluate_congr`, `covers_of_evaluate`, `kind_of_evaluate`: their values are
    all that evaluation looks up, and it looks up all of them unless it fails
    before;
  * `variables_needed` puts this together.
-/
import Reckon.Proofs.Buffer
import Reckon.Proofs.Consumption
import Reckon.Proofs.Evaluation

namespace Reckon

/-! ## Sorted names -/

theorem mem_insertName {n name : String} {ns : List String} :
    n ∈ insertName name ns ↔ n = name ∨ n ∈ ns := by
  induction ns with
  | nil => simp [insertName]
  | cons m ns ih =>
    unfold insertName
    split
    · simp
    · split
      · rename_i heq
        simp [heq]
      · rw [List.mem_cons, ih, List.mem_cons]
        exact or_left_comm

theorem pairwise_insertName {ns : List String} (h : ns.Pairwise (· < ·)) (name : String) :
    (insertName name ns).Pairwise (· < ·) := by
  induction ns with
  | nil => simp [insertName]
  | cons m ns ih =>
    obtain ⟨hm, hns⟩ := List.pairwise_cons.1 h
    unfold insertName
    split
    · rename_i hlt
      refine List.pairwise_cons.2 ⟨fun n hn => ?_, h⟩
      rcases List.mem_cons.1 hn with rfl | hn
      · exact hlt
      · exact hlt.trans (hm n hn)
    · split
      · exact h
      · rename_i hnot hne
        refine List.pairwise_cons.2 ⟨fun n hn => ?_, ih hns⟩
        rcases mem_insertName.1 hn with rfl | hn
        · exact lt_of_le_of_ne (not_lt.1 hnot) (Ne.symm hne)
        · exact hm n hn

/-- **The variables of a formula** are the names among its leaves. -/
theorem mem_variables {f : Formula} {name : String} :
    name ∈ Formula.variables f ↔ .var name ∈ f.leaves := by
  have hsorted : ∀ ns : List String, name ∈ ns.foldr insertName [] ↔ name ∈ ns := by
    intro ns
    induction ns with
    | nil => simp
    | cons n ns ih => rw [List.foldr_cons, mem_insertName, ih, List.mem_cons]
  rw [Formula.variables, hsorted, List.mem_filterMap]
  constructor
  · rintro ⟨a, ha, hname⟩
    cases a with
    | number x => cases hname
    | var n =>
      cases hname
      exact ha
  · intro h
    exact ⟨_, h, rfl⟩

theorem pairwise_variables (f : Formula) : (Formula.variables f).Pairwise (· < ·) := by
  unfold Formula.variables
  induction f.leaves.filterMap Operand.name? with
  | nil => exact .nil
  | cons n ns ih => exact pairwise_insertName ih n

/-! ## The order of bytes -/

/-- The bytes of a text. -/
def bytes (text : String) : List UInt8 :=
  text.toByteArray.data.toList

theorem toUInt8_lt {c d : Char} (hd : d.utf8Size = 1) (h : c < d) : c.toUInt8 < d.toUInt8 := by
  rw [Char.utf8Size_eq_one_iff, UInt32.le_iff_toNat_le] at hd
  change d.toNat ≤ 127 at hd
  have hlt : c.toNat < d.toNat := h
  have hc : c.toUInt8.toNat = c.toNat := Nat.mod_eq_of_lt (show c.toNat < 256 by omega)
  have hd : d.toUInt8.toNat = d.toNat := Nat.mod_eq_of_lt (show d.toNat < 256 by omega)
  rw [UInt8.lt_iff_toNat_lt, hc, hd]
  exact hlt

theorem map_toUInt8_lt {cs ds : List Char} (hcs : ∀ c ∈ cs, c.utf8Size = 1)
    (hds : ∀ d ∈ ds, d.utf8Size = 1) (h : cs < ds) : cs.map Char.toUInt8 < ds.map Char.toUInt8 := by
  induction h with
  | nil => exact .nil
  | rel hlt => exact .rel (toUInt8_lt (hds _ (List.mem_cons_self ..)) hlt)
  | cons _ ih =>
    exact .cons (ih (fun c hc => hcs c (List.mem_cons_of_mem _ hc))
      fun d hd => hds d (List.mem_cons_of_mem _ hd))

/-- **Texts of one-byte characters** are ordered as their bytes are. -/
theorem bytes_lt_bytes {a b : String} (ha : ∀ c ∈ a.toList, c.utf8Size = 1)
    (hb : ∀ c ∈ b.toList, c.utf8Size = 1) (h : a < b) : bytes a < bytes b := by
  rw [bytes, bytes, ← String.utf8Encode_toList, ← String.utf8Encode_toList,
    Buffer.data_utf8Encode ha, Buffer.data_utf8Encode hb]
  exact map_toUInt8_lt ha hb (String.lt_iff_toList_lt.1 h)

/-! ## Names in a text -/

/-- The names among the operands that tokens denote are the texts of variables. -/
theorem mem_of_denotes {ts : List Token} {as : List Operand}
    (h : List.Forall₂ Token.Denotes (ts.filter (·.kind.isOperand)) as) {name : String} :
    .var name ∈ as ↔ ∃ t ∈ ts, t.kind = .var ∧ t.text = name := by
  constructor
  · intro hname
    obtain ⟨t, ht, hdenotes⟩ := exists_of_forall₂ h hname
    cases hdenotes with
    | var hkind => exact ⟨t, List.mem_of_mem_filter ht, hkind, rfl⟩
  · rintro ⟨t, ht, hkind, rfl⟩
    have hoperand : t ∈ ts.filter (·.kind.isOperand) := by
      refine List.mem_filter.2 ⟨ht, ?_⟩
      rw [hkind]
      rfl
    obtain ⟨a, ha, hdenotes⟩ := exists_of_forall₂ h.flip hoperand
    cases hdenotes with
    | var => exact ha
    | number hnumber =>
      rw [hkind] at hnumber
      cases hnumber

/-- **The variables of a formula that is read** are the texts of the variables
    among its tokens. -/
theorem mem_variables_iff_token {text : String} {f : Formula} (h : Formula.parse text = .ok f) :
    ∃ ts, tokenize text = .ok ts ∧
      ∀ name, name ∈ Formula.variables f ↔ ∃ t ∈ ts, t.kind = .var ∧ t.text = name := by
  obtain ⟨ts, htokens, ss, hss, b, hrun, hfinish⟩ := Formula.parse_eq_ok_iff.1 h
  refine ⟨ts, htokens, fun name => ?_⟩
  rw [mem_variables, leaves_build hrun hfinish]
  exact mem_of_denotes (denotes_of_symbols hss)

theorem pairwise_bytes_variables {text : String} {f : Formula} (h : Formula.parse text = .ok f) :
    (Formula.variables f).Pairwise fun a b => bytes a < bytes b := by
  have hsize : ∀ name ∈ Formula.variables f, ∀ c ∈ name.toList, c.utf8Size = 1 := by
    intro name hname
    have hfits : Pattern.name.Fits name.toList := printable_of_parse h _ (mem_variables.1 hname)
    exact hfits.utf8Size_eq_one (k := .var) rfl
  exact (pairwise_variables f).imp_of_mem fun ha hb hlt =>
    bytes_lt_bytes (hsize _ ha) (hsize _ hb) hlt

/-! ## Values of variables -/

/-- All of some names have finite values. -/
def Valuation.Covers (v : Valuation) (names : List String) : Prop :=
  ∀ name ∈ names, ∃ x, v.get? name = some x ∧ x.isFinite = true

/-- **Nothing but the values of the variables** is looked up. -/
theorem evaluate_congr {f : Formula} {v w : Valuation}
    (h : ∀ name ∈ Formula.variables f, v.get? name = w.get? name) :
    f.evaluate v = f.evaluate w := by
  refine Expr.evalM_congr _ _ fun a ha => ?_
  cases a with
  | number x => rfl
  | var name => rw [Operand.value, Operand.value, Valuation.get, Valuation.get,
      h name (mem_variables.2 ha)]

/-- A value is computed from all of the variables. -/
theorem covers_of_evaluate {f : Formula} {v : Valuation} {x : Binary64}
    (h : f.evaluate v = .ok x) : v.Covers (Formula.variables f) := by
  intro name hname
  obtain ⟨y, hy⟩ := Expr.value_of_evalM h _ (mem_variables.1 hname)
  rcases Operand.value_eq_ok_iff.1 hy with hnumber | ⟨_, hvar, hget, hfinite⟩
  · cases hnumber
  · cases hvar
    exact ⟨y, hget, hfinite⟩

/-- Where all of the variables have a finite value, only arithmetic can fail. -/
theorem kind_of_evaluate {f : Formula} {v : Valuation} (hv : v.Covers (Formula.variables f))
    {e : Error} (h : f.evaluate v = .error e) : e.kind = .arithmetic := by
  rcases Expr.evalM_eq_error h with ⟨a, ha, h⟩ | ⟨op, x, y, h⟩
  · cases a with
    | number x => cases h
    | var name =>
      obtain ⟨x, hget, hfinite⟩ := hv name (mem_variables.2 ha)
      have hvalue : (Operand.var name).value v = .ok x :=
        Operand.value_eq_ok_iff.2 (.inr ⟨name, rfl, hget, hfinite⟩)
      rw [hvalue] at h
      cases h
  · exact BinaryOp.kind_of_compute h

/-- **The variables of a formula are what its evaluation needs.**  They are the
    names among the tokens of the text that it is read from, each once and in
    the order of their bytes.  Where two valuations agree on them, the outcome
    is the same.  A formula has a value only if all of them have a finite one,
    and if they have, it is not for want of values that it has none. -/
theorem variables_needed :
    (∀ text f, Formula.parse text = .ok f →
      ∃ ts, tokenize text = .ok ts ∧
        ((Formula.variables f).Pairwise fun a b => bytes a < bytes b) ∧
        ∀ name, name ∈ Formula.variables f ↔ ∃ t ∈ ts, t.kind = .var ∧ t.text = name) ∧
    (∀ (f : Formula) v w, (∀ name ∈ Formula.variables f, v.get? name = w.get? name) →
      f.evaluate v = f.evaluate w) ∧
    (∀ (f : Formula) v x, f.evaluate v = .ok x → v.Covers (Formula.variables f)) ∧
    ∀ (f : Formula) v, v.Covers (Formula.variables f) → ∀ e, f.evaluate v = .error e →
      e.kind ≠ .incorrect := by
  refine ⟨fun text f h => ?_, fun _ _ _ => evaluate_congr, fun _ _ _ => covers_of_evaluate,
    fun f v hv e h => ?_⟩
  · obtain ⟨ts, htokens, hnames⟩ := mem_variables_iff_token h
    exact ⟨ts, htokens, pairwise_bytes_variables h, hnames⟩
  · rw [kind_of_evaluate hv h]
    nofun

/-- A variable that comes twice and one that is not reached: a division by zero
    comes before it. -/
theorem variables_needed_division :
    let zero : Binary64 := .finite false .zero
    let v := Valuation.ofList [("a", zero), ("b", zero)]
    let w := Valuation.ofList [("b", zero), ("c", .nan), ("a", zero)]
    let f : Formula := .binary .sub (.binary .div (.leaf (.var "b")) (.leaf (.var "a")))
      (.negate (.leaf (.var "b")))
    let g : Formula := .negate (.leaf (.var "b"))
    Formula.parse "b/a--b" = .ok f ∧ Formula.variables f = ["a", "b"] ∧
      (∃ ts, tokenize "b/a--b" = .ok ts ∧
        ("b" ∈ Formula.variables f ↔ ∃ t ∈ ts, t.kind = .var ∧ t.text = "b")) ∧
      f.evaluate v = f.evaluate w ∧
      g.evaluate w = .ok zero.neg ∧ w.Covers (Formula.variables g) ∧
      v.Covers (Formula.variables f) ∧
      f.evaluate v = .error (.arithmetic (.zeroDivision zero zero)) ∧
      (Error.arithmetic (.zeroDivision zero zero)).kind ≠ .incorrect := by
  intro zero v w f g
  obtain ⟨htokens, hagree, hcovers, hkind⟩ := variables_needed
  have hparse : Formula.parse "b/a--b" = .ok f := by cbv
  have hnames : Formula.variables f = ["a", "b"] := by cbv
  have hvalue : g.evaluate w = .ok zero.neg := rfl
  have hv : v.Covers (Formula.variables f) := by
    rw [hnames]
    simp only [Valuation.Covers, List.forall_mem_cons]
    exact ⟨⟨zero, rfl, rfl⟩, ⟨zero, rfl, rfl⟩, List.forall_mem_nil _⟩
  have hdivision : f.evaluate v = .error (.arithmetic (.zeroDivision zero zero)) := rfl
  obtain ⟨ts, hts, -, htexts⟩ := htokens _ _ hparse
  refine ⟨hparse, hnames, ⟨ts, hts, htexts "b"⟩, hagree f v w ?_, hvalue, hcovers _ _ _ hvalue, hv,
    hdivision, hkind f v hv _ hdivision⟩
  rw [hnames]
  simp only [List.forall_mem_cons]
  exact ⟨rfl, rfl, List.forall_mem_nil _⟩

end Reckon
