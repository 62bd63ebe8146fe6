/-
  Reckon — building with stacks of which nothing is known.

  The types of `Build` say that what waits is an open parenthesis or an
  operator, and that an operator which is applied is there.  Here nothing of
  this is said: any kind of token may wait (`Entry`), every stack may turn out
  to be empty, and each such case is an error of its own, told in words.

  `Stacks.build_eq`: the expressions and errors are the same all the same, so
  that none of these cases comes up.  Every step of `Build` is one of `Stacks`
  where operators wait as their kinds (`ofBuild`).
-/
import Reckon.Formula.Reading
import Reckon.Proofs.Embedding

namespace Reckon

open Build

/-! ## The machine -/

/-- What can wait. -/
inductive Entry where
  /-- an open parenthesis, with the number of operands before it -/
  | group (height : Nat)
  | kind (k : Kind)
deriving DecidableEq

/-- Two stacks, the latest entries first. -/
structure Stacks where
  operands : List Formula
  entries : List Entry

/-- What is told of an error: its kind and the details in words. -/
def Error.told (e : Error) : ErrorKind × String :=
  (e.kind, e.detail)

namespace Stacks

/-- An outcome, or what is told of an error. -/
abbrev Outcome (α : Type) : Type := Except (ErrorKind × String) α

/-- The number of operands before the innermost open parenthesis. -/
def floor : List Entry → Nat
  | [] => 0
  | .group height :: _ => height
  | .kind _ :: entries => floor entries

/-- The latest operand and the others, for a token of the kind `k`. -/
def pop (k : Kind) (entries : List Entry) (operands : List Formula) :
    Outcome (Formula × List Formula) :=
  if operands.length ≤ floor entries then
    .error (.lexical, "operator " ++ k.describe ++ " is missing an operand")
  else match operands with
    | e :: rest => .ok (e, rest)
    | [] => .error (.internal, "operand stack is empty")

/-- The operands once the latest entry has been applied to them. -/
def combine : List Entry → List Formula → Outcome (List Formula)
  | [], _ => .error (.internal, "operator stack is empty")
  | .group _ :: _, _ => .error (.internal, "unclosed scope on operator stack")
  | .kind k :: entries, operands => do
    let (right, rest) ← pop k entries operands
    match k with
    | .operator (.binary op) =>
      let (left, rest) ← pop k entries rest
      return .binary op left right :: rest
    | .operator .negate => return .negate right :: rest
    | _ => .error (.internal, k.describe ++ " is not an operator")

/-- Apply what waits back to an open parenthesis, or to a kind of less than the
    given priority. -/
def settle (priority : Option Nat) : List Entry → List Formula → Outcome Stacks
  | .kind k :: entries, operands =>
    if Option.lt (· < ·) k.priority priority then .ok ⟨operands, .kind k :: entries⟩
    else do settle priority entries (← combine (.kind k :: entries) operands)
  | entries, operands => .ok ⟨operands, entries⟩

/-- Take a token of a kind that is neither an operand nor a parenthesis. -/
def push (s : Stacks) (k : Kind) : Outcome Stacks :=
  if k ≠ .operator (.binary .div) ∧ s.entries.head? = some (.kind k) then
    .ok { s with entries := .kind k :: s.entries }
  else do
    let settled ← settle k.priority s.entries s.operands
    return { settled with entries := .kind k :: settled.entries }

/-- Take a closing parenthesis. -/
def close : List Entry → List Formula → Outcome Stacks
  | .kind k :: entries, operands => do close entries (← combine (.kind k :: entries) operands)
  | .group height :: entries, operands =>
    match operands.length - height with
    | 1 => .ok ⟨operands, entries⟩
    | 0 => .error (.lexical, "parentheses are empty")
    | n => .error (.lexical,
        toString n ++ " operands inside parentheses are not joined by an operator")
  | [], _ => .error (.internal, "closing parenthesis without an open scope")

/-- Take a token. -/
def take (s : Stacks) (t : Token) : Outcome Stacks :=
  match t.kind with
  | .number => do
    let x ← (readNumber t.text).mapError Error.told
    return { s with operands := .leaf (.number x) :: s.operands }
  | .var => .ok { s with operands := .leaf (.var t.text) :: s.operands }
  | .openParen => .ok { s with entries := .group s.operands.length :: s.entries }
  | .closeParen => close s.entries s.operands
  | k => s.push k

/-- Apply what is left. -/
def finish : List Entry → List Formula → Outcome Formula
  | entry :: entries, operands => do finish entries (← combine (entry :: entries) operands)
  | [], [e] => .ok e
  | [], [] => .error (.lexical, "formula has no operands")
  | [], operands =>
    .error (.lexical, toString operands.length ++ " operands are not joined by an operator")

/-- The formula that tokens are grouped into. -/
def build (ts : List Token) : Outcome Formula := do
  let s ← ts.foldlM take ⟨[], []⟩
  finish s.entries s.operands

/-! ## Stacks of operators -/

/-- What waits, as an entry of any kind. -/
def ofPending : Pending → Entry
  | .group height => .group height
  | .operator o => .kind (.operator o)

def ofBuild (b : Build Operand) : Stacks :=
  ⟨b.operands, b.pending.map ofPending⟩

theorem floor_map (pending : List Pending) : floor (pending.map ofPending) = Build.floor pending := by
  induction pending with
  | nil => rfl
  | cons q pending ih =>
    cases q with
    | group => rfl
    | operator => exact ih

theorem pop_eq (o : Operator) (pending : List Pending) (es : List Formula) :
    pop (.operator o) (pending.map ofPending) es =
      (takeOperand o pending es).mapError Error.told := by
  unfold pop takeOperand
  rw [floor_map]
  split
  · rfl
  · cases es <;> rfl

/-- An operator that waits is one that can be applied. -/
theorem combine_eq (o : Operator) (pending : List Pending) (es : List Formula) :
    combine (.kind (.operator o) :: pending.map ofPending) es =
      (reduce o pending es).mapError Error.told := by
  rw [combine, pop_eq, reduce, mapError_bind]
  congr 1
  funext popped
  obtain ⟨right, rest⟩ := popped
  cases o with
  | negate => rfl
  | binary op =>
    dsimp only
    rw [pop_eq, mapError_bind]
    rfl

/-- What is done to the two stacks is the same, and so are the errors. -/
theorem settle_eq (priority : Nat) (b : Build Operand) :
    settle (some priority) (b.pending.map ofPending) b.operands =
      ((Build.settle priority b.pending b.operands).map ofBuild).mapError Error.told := by
  obtain ⟨es, pending⟩ := b
  induction pending generalizing es with
  | nil => rfl
  | cons q pending ih =>
    cases q with
    | group => rfl
    | operator o =>
      rw [List.map_cons, ofPending, settle, Build.settle]
      have hless : Option.lt (· < ·) (Kind.operator o).priority (some priority) ↔
          o.priority < priority := Iff.rfl
      by_cases h : o.priority < priority
      · rw [if_pos h, if_pos (hless.2 h)]
        rfl
      · rw [if_neg h, if_neg (mt hless.1 h), combine_eq, map_bind_eq, mapError_bind]
        congr 1
        funext es'
        exact ih es'

theorem push_eq (b : Build Operand) (o : Operator) :
    (ofBuild b).push (.operator o) = ((b.shift o).map ofBuild).mapError Error.told := by
  have hhead : (ofBuild b).entries.head? = some (.kind (.operator o)) ↔
      b.pending.head? = some (.operator o) := by
    obtain ⟨es, pending⟩ := b
    cases pending with
    | nil => exact iff_of_false nofun nofun
    | cons q pending => cases q <;> simp [ofBuild, ofPending]
  have hchains : Kind.operator o ≠ .operator (.binary .div) ↔ o.chains = true := by
    simp [Operator.chains]
  unfold push shift
  by_cases h : o.chains = true ∧ b.pending.head? = some (.operator o)
  · rw [if_pos h, if_pos ⟨hchains.2 h.1, hhead.2 h.2⟩]
    rfl
  · rw [if_neg h, if_neg fun h' => h ⟨hchains.1 h'.1, hhead.1 h'.2⟩, map_bind_eq, mapError_bind]
    have hsettle := settle_eq o.priority b
    change settle (Kind.operator o).priority (ofBuild b).entries (ofBuild b).operands = _ at hsettle
    rw [hsettle]
    cases Build.settle o.priority b.pending b.operands <;> rfl

theorem close_eq (b : Build Operand) :
    close (b.pending.map ofPending) b.operands =
      ((closeGroup b.pending b.operands).map ofBuild).mapError Error.told := by
  obtain ⟨es, pending⟩ := b
  induction pending generalizing es with
  | nil => rfl
  | cons q pending ih =>
    cases q with
    | group height =>
      rw [List.map_cons, ofPending, close, closeGroup]
      rcases es.length - height with _ | _ | n
      all_goals rfl
    | operator o =>
      rw [List.map_cons, ofPending, close, closeGroup, combine_eq, map_bind_eq, mapError_bind]
      congr 1
      funext es'
      exact ih es'

theorem take_eq (b : Build Operand) (t : Token) :
    (ofBuild b).take t =
      ((t.symbol >>= fun s => b.take s).map ofBuild).mapError Error.told := by
  rw [map_bind_eq, mapError_bind, take, Token.symbol]
  cases t.kind with
  | var | openParen => rfl
  | number => cases readNumber t.text <;> rfl
  | operator o => exact push_eq b o
  | closeParen => exact close_eq b

theorem finish_eq (b : Build Operand) :
    finish (b.pending.map ofPending) b.operands =
      (Build.finish b.pending b.operands).mapError Error.told := by
  obtain ⟨es, pending⟩ := b
  induction pending generalizing es with
  | nil =>
    match es with
    | [] | [_] | _ :: _ :: _ => rfl
  | cons q pending ih =>
    cases q with
    | group => rfl
    | operator o =>
      rw [List.map_cons, ofPending, finish, Build.finish, combine_eq, mapError_bind]
      congr 1
      funext es'
      exact ih es'

theorem foldlM_take_eq (b : Build Operand) (ts : List Token) :
    ts.foldlM take (ofBuild b) = ((takeAll Token.symbol b ts).map ofBuild).mapError Error.told := by
  induction ts generalizing b with
  | nil => rfl
  | cons t ts ih =>
    rw [List.foldlM_cons, take_eq, takeAll, List.foldlM_cons]
    cases t.symbol >>= fun s => b.take s with
    | error e => rfl
    | ok c => exact ih c

/-- **Nothing but operators waits, and what is taken from a stack is there.**
    What is built, and what is told of errors, is the same if the stacks are
    not known to hold what they should. -/
theorem build_eq (ts : List Token) :
    build ts = (Formula.ofTokens ts).mapError Error.told := by
  have htake := foldlM_take_eq Build.empty ts
  change ts.foldlM take ⟨[], []⟩ = _ at htake
  rw [build, htake, Formula.ofTokens, Expr.build, mapError_bind]
  cases takeAll Token.symbol Build.empty ts with
  | error e => rfl
  | ok b => exact finish_eq b

end Stacks

end Reckon
