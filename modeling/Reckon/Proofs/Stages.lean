/-
  Reckon — which errors come from where.

  Reading a text fails with errors of the alphabet and lexical ones, and
  evaluating a formula with wrong uses and errors of arithmetic, so that an
  error tells the stage it comes from.  Internal errors come up nowhere: the
  check for balance leaves nothing but misfits to building
  (`ofText_of_parse`), the stacks hold what they should, and so does the buffer
  in which a text is scanned (`parseRaw_eq`).

  * `ofTokens_eq_error`: an error of building is that of a token which cannot
    be read, or is about the place of tokens;
  * `readNumber_of_fits`: a number in a formula can be read, and is out of
    range at worst;
  * `Cache.error_kinds` puts this together for a cache in any state.
-/
import Reckon.Proofs.Agreement
import Reckon.Proofs.Buffer
import Reckon.Proofs.Evaluation
import Reckon.Proofs.Leaves
import Reckon.Proofs.Requests

namespace Reckon

open Build

/-! ## Kinds of errors -/

/-- An error that says what is wrong with a text. -/
def Error.OfText (e : Error) : Prop :=
  e.kind = .alphabet ∨ e.kind = .lexical

/-- An error that says why a formula has no value. -/
def Error.OfUse (e : Error) : Prop :=
  e.kind = .incorrect ∨ e.kind = .arithmetic

theorem Error.OfText.isMendable {e : Error} (h : e.OfText) : e.kind.isMendable = true := by
  rcases h with h | h <;> rw [h] <;> rfl

theorem Error.OfUse.isMendable {e : Error} (h : e.OfUse) : e.kind.isMendable = true := by
  rcases h with h | h <;> rw [h] <;> rfl

theorem Error.OfUse.not_ofText {e : Error} (h : e.OfUse) : ¬ e.OfText := by
  rintro (htext | htext) <;> rcases h with h | h <;> rw [h] at htext <;> cases htext

theorem Error.Misfit.ofText {e : Error} (h : e.Misfit) : e.OfText := by
  refine .inr ?_
  cases h <;> rfl

/-! ## Cutting -/

/-- What can be wrong with a text before anything is built of it. -/
inductive Error.OfTokens : Error → Prop
  | alphabet (characters : String) : OfTokens (.alphabet characters)
  | unrecognized (characters : String) : OfTokens (.lexical (.unrecognized characters))
  | empty : OfTokens (.lexical .empty)
  | unbalanced (complaints : List Complaint) : OfTokens (.lexical (.unbalanced complaints))

theorem Error.OfTokens.ofText {e : Error} (h : e.OfTokens) : e.OfText := by
  cases h with
  | alphabet => exact .inl rfl
  | unrecognized | empty | unbalanced => exact .inr rfl

theorem ofTokens_of_scan {text : String} {e : Error} (h : scan text = .error e) : e.OfTokens := by
  unfold scan at h
  split at h
  · cases h
    exact .alphabet _
  · dsimp only at h
    split at h
    · cases h
      exact .unrecognized _
    · split at h <;> cases h
      exact .empty

theorem ofTokens_of_checkBalance {ts : List Token} {e : Error} (h : checkBalance ts = .error e) :
    e.OfTokens := by
  rw [checkBalance_eq_error h]
  exact .unbalanced _

theorem ofTokens_of_tokenize {text : String} {e : Error} (h : tokenize text = .error e) :
    e.OfTokens := by
  rw [tokenize_eq] at h
  obtain h | ⟨raw, -, h⟩ := bind_eq_error.1 h
  · exact ofTokens_of_scan h
  · obtain h | ⟨_, -, h⟩ := bind_eq_error.1 h
    · exact ofTokens_of_checkBalance h
    · cases h

/-! ## Building -/

/-- What is wrong with the places of tokens. -/
inductive Error.OfPlaces : Error → Prop
  | misplaced {e : Error} : e.Misplaced → OfPlaces e
  | internal (fault : Fault) : OfPlaces (.internal fault)
  | noOperands : OfPlaces (.lexical .noOperands)
  | unjoined (n : Nat) : OfPlaces (.lexical (.unjoined n))

/-- **An error of building** is that of a token which cannot be read, or is
    about the places of tokens. -/
theorem ofTokens_eq_error {ts : List Token} {e : Error} (h : Formula.ofTokens ts = .error e) :
    (∃ t ∈ ts, t.symbol = .error e) ∨ e.OfPlaces := by
  obtain h | ⟨b, -, h⟩ := bind_eq_error.1 h
  · obtain ⟨before, t, after, c, rfl, -, h | ⟨s, -, htake⟩⟩ := takeAll_eq_error h
    · exact .inl ⟨t, List.mem_append_right _ (List.mem_cons_self ..), h⟩
    · obtain h | ⟨rfl, -⟩ := misplaced_of_take htake
      · exact .inr (.misplaced h)
      · exact .inr (.internal _)
  · obtain h | ⟨rfl, -⟩ | ⟨rfl, -⟩ | ⟨n, rfl, -⟩ := misplaced_of_finish h
    · exact .inr (.misplaced h)
    · exact .inr (.internal _)
    · exact .inr .noOperands
    · exact .inr (.unjoined n)

/-! ## Numbers -/

/-- The only token that cannot be read is a number out of range. -/
theorem symbol_eq_error {t : Token} {e : Error} (h : t.symbol = .error e)
    (hfits : t.kind.isOperand = true → t.lexeme.Fits) :
    e = .lexical (.numberOutOfRange t.text) := by
  unfold Token.symbol at h
  split at h
  case h_2 hk =>
    obtain h | ⟨x, -, h⟩ := bind_eq_error.1 h
    · have hdigits := Token.fits_of_pattern (p := .decimal) (by rw [hk]; rfl) (hfits (by rw [hk]; rfl))
      obtain ⟨x, -, hread⟩ := readNumber_of_fits hdigits
      rw [hread] at h
      split at h
      · cases h
      · cases h
        rfl
    · cases h
  all_goals cases h

/-! ## Reading -/

/-- **Reading a text** fails with errors of the alphabet and lexical ones, and
    never because a number cannot be read. -/
theorem ofText_of_parse {text : String} {e : Error} (h : Formula.parse text = .error e) :
    e.OfText ∧ ∀ t, e ≠ .lexical (.invalidNumber t) := by
  rw [Formula.parse_eq] at h
  obtain h | ⟨ts, htokens, h⟩ := bind_eq_error.1 h
  · have htokens := ofTokens_of_tokenize h
    refine ⟨htokens.ofText, ?_⟩
    rintro t rfl
    cases htokens
  · -- what is built is in balance
    obtain ⟨raw, -, hbalance, rfl⟩ := tokenize_eq_ok_iff.1 htokens
    have hmisfit := (blames_of_ofTokens h).misfit_of_balanced (checkBalance_eq_ok_iff.1 hbalance)
    refine ⟨hmisfit.ofText, ?_⟩
    rintro s rfl
    obtain ⟨t, ht, hsymbol⟩ | hplaces := ofTokens_eq_error h
    · cases symbol_eq_error hsymbol (fits_of_tokenize htokens ht)
    · cases hplaces with
      | misplaced hmisplaced => cases hmisplaced

/-! ## Evaluating -/

/-- **Evaluating a formula** fails with wrong uses and errors of arithmetic. -/
theorem ofUse_of_evaluate {f : Formula} {v : Valuation} {e : Error} (h : f.evaluate v = .error e) :
    e.OfUse := by
  rcases Expr.evalM_eq_error h with ⟨a, -, h⟩ | ⟨op, x, y, h⟩
  · exact .inl (Operand.kind_of_value h)
  · exact .inr (BinaryOp.kind_of_compute h)

/-! ## Machines of which nothing is known -/

/-- The formula that a text denotes, scanned in a buffer of bytes and built with
    stacks of any kinds. -/
def parseRaw (problem : ByteArray → String) (text : String) : Buffer.Outcome Formula := do
  let tokens ← Buffer.scan problem text
  let tokens := resolveMinus tokens
  (checkBalance tokens).mapError Buffer.Halt.ofError
  (Stacks.build tokens).mapError fun told => .error told.1 told.2

/-- **Nothing comes up in the buffer or on the stacks** that is not said of the
    text itself. -/
theorem parseRaw_eq (problem : ByteArray → String) (text : String) :
    parseRaw problem text = (Formula.parse text).mapError Buffer.Halt.ofError := by
  rw [parseRaw, Buffer.scan_eq, Formula.parse_eq, tokenize_eq]
  cases scan text with
  | error e => rfl
  | ok raw =>
    rw [ok_bind]
    cases hbalance : checkBalance (resolveMinus raw) with
    | error e => simp [hbalance, Except.mapError, bind, Except.bind]
    | ok u =>
      simp only [Except.mapError, ok_bind, hbalance, pure, Except.pure, Stacks.build_eq]
      cases Formula.ofTokens (resolveMinus raw) <;> rfl

/-- **An error tells the stage that it comes from.** -/
theorem Cache.error_kinds :
    (∀ text e, tokenize text = .error e → e.OfText) ∧
    (∀ text e, Formula.parse text = .error e →
      e.OfText ∧ ∀ t, e ≠ .lexical (.invalidNumber t)) ∧
    (∀ (f : Formula) v e, f.evaluate v = .error e → e.OfUse) ∧
    (∀ o calls text v,
      let outcome := (((new o).after calls).evaluate text v).1.outcome
      (∀ e, outcome = .error e → e.kind.isMendable = true) ∧
      ((∃ e, outcome = .error e ∧ e.OfText) ↔ ∃ e, Formula.parse text = .error e)) ∧
    (∀ text ts, scan text = .ok ts → ∀ t ∈ ts, t.kind = .number →
      ∃ x, Binary64.read t.text = .ok x ∧ readNumber t.text =
        if x.isFinite then .ok x else .error (.lexical (.numberOutOfRange t.text))) ∧
    ∀ problem text halt, parseRaw problem text = .error halt →
      ∃ detail, halt = .error .alphabet detail ∨ halt = .error .lexical detail := by
  refine ⟨fun _ _ h => (ofTokens_of_tokenize h).ofText, fun _ _ => ofText_of_parse,
    fun _ _ _ => ofUse_of_evaluate, fun o calls text v => ?_, fun text ts h t ht hk => ?_,
    fun problem text halt h => ?_⟩
  · intro outcome
    have houtcome : outcome = Formula.parse text >>= fun f => f.evaluate v :=
      ((Sound.new o).after calls).evaluate_outcome text v
    rw [houtcome]
    refine ⟨fun e h => ?_, ?_, ?_⟩
    · obtain h | ⟨f, -, h⟩ := bind_eq_error.1 h
      · exact (ofText_of_parse h).1.isMendable
      · exact (ofUse_of_evaluate h).isMendable
    · rintro ⟨e, h, htext⟩
      obtain h | ⟨f, -, h⟩ := bind_eq_error.1 h
      · exact ⟨e, h⟩
      · exact absurd htext (ofUse_of_evaluate h).not_ofText
    · rintro ⟨e, h⟩
      exact ⟨e, bind_eq_error.2 (.inl h), (ofText_of_parse h).1⟩
  · obtain ⟨hmunched, -, rfl⟩ := lexemes_of_scan h
    exact readNumber_of_fits (Token.fits_of_pattern (by rw [hk]; rfl) (fits_of_mem_locate hmunched 0 t ht))
  · rw [parseRaw_eq] at h
    cases hparse : Formula.parse text with
    | ok f => rw [hparse] at h; cases h
    | error e =>
      rw [hparse] at h
      cases h
      refine ⟨e.detail, ?_⟩
      rw [Buffer.Halt.ofError]
      exact (ofText_of_parse hparse).1.imp (congrArg (Buffer.Halt.error · _))
        (congrArg (Buffer.Halt.error · _))

/-- A parenthesis that is left open, a division by zero of what was stored, and
    a number that ends with its point. -/
theorem Cache.error_kinds_zero_division :
    let zero : Binary64 := .finite false .zero
    let c := (new {}).after [.get "x/x", .evaluate "(x" .empty]
    (∃ e, Formula.parse "(x" = .error e ∧ e.OfText) ∧
    (∃ e, (c.evaluate "x/x" (.ofList [("x", zero)])).1.outcome = .error e ∧
      e.kind.isMendable = true) ∧
    ∃ x, Binary64.read "4." = .ok x := by
  intro zero c
  have hparse : Formula.parse "(x" = .error (.lexical (.unbalanced [.notEnoughClosing])) := by cbv
  have hbuilt : Formula.parse "x/x" =
      .ok (.binary .div (.leaf (.var "x")) (.leaf (.var "x"))) := by cbv
  have hdivision : (c.evaluate "x/x" (.ofList [("x", zero)])).1.outcome =
      .error (.arithmetic (.zeroDivision zero zero)) := by
    rw [((Sound.new {}).after _).evaluate_outcome, hbuilt]
    rfl
  have hscan : scan "4." = .ok [⟨.number, "4.", 0, 2⟩] := by cbv
  obtain ⟨-, hreading, -, hcache, hnumber, -⟩ := Cache.error_kinds
  obtain ⟨x, hread, -⟩ := hnumber _ _ hscan _ (List.mem_singleton_self _) rfl
  exact ⟨⟨_, hparse, (hreading _ _ hparse).1⟩, ⟨_, hdivision, (hcache _ _ _ _).1 _ hdivision⟩,
    x, hread⟩

end Reckon
