/-
  Reckon — the journal of what happens to a formula.

  Reading a formula and looking it up leave records (`Event`), whatever comes
  of them.  A `Logged` computation has its outcome and, in their order, the
  events up to the end or to the failure.
-/
import Reckon.Error
import Reckon.Formula

namespace Reckon

/-! ## Events -/

/-- How detailed an event is: `trace` is more so than `debug`. -/
inductive Level where
  | debug
  | trace
deriving DecidableEq

/-- The level as records name it. -/
def Level.label : Level → String
  | debug => "DEBUG"
  | trace => "TRACE"

/-- Which events are shown. -/
inductive Verbosity where
  | off
  | debug
  | trace
deriving DecidableEq

/-- Whether events of a level are shown. -/
def Verbosity.shows : Verbosity → Level → Bool
  | off, _ => false
  | debug, l => l == .debug
  | trace, _ => true

/-- What can happen to the text of a formula. -/
inductive Event where
  /-- it was cut into so many tokens -/
  | tokenized (text : String) (tokens : Nat)
  /-- it was read as a formula -/
  | built (text : String) (formula : Formula)
  /-- it was found in a cache -/
  | hit (text : String)
  /-- it was not found in a cache -/
  | miss (text : String)

namespace Event

/-- How detailed an event is: a result that was computed anew is less so than
    a step or a result that was at hand. -/
def level : Event → Level
  | tokenized _ _ | hit _ => .trace
  | built _ _ | miss _ => .debug

/-- The part of the program that an event is recorded for. -/
def origin : Event → String
  | tokenized _ _ => "mathcheck_formula::lexer"
  | built _ _ => "mathcheck_formula::parser"
  | hit _ | miss _ => "mathcheck_formula::cache"

/-- An event in words; the formula's text is quoted. -/
def message : Event → String
  | tokenized t n => "tokenized " ++ Text.quote t ++ " into " ++ toString n ++ " tokens"
  | built t f => "built tree " ++ f.text ++ " from " ++ Text.quote t
  | hit t => "formula cache hit for " ++ Text.quote t
  | miss t => "formula cache miss for " ++ Text.quote t

end Event

/-! ## Logged computations -/

/-- The outcome of a computation, which may fail with an error of `ε`, and the
    events on the way to it. -/
structure Logged (ε α : Type) where
  events : List Event
  outcome : Except ε α

namespace Logged

variable {ε ε' α β : Type}

/-- An outcome without any event. -/
def ofExcept (x : Except ε α) : Logged ε α := ⟨[], x⟩

/-- An event, and nothing else. -/
def note (e : Event) : Logged ε Unit := ⟨[e], .ok ()⟩

/-- One computation after another, unless the first one fails. -/
def bind (x : Logged ε α) (f : α → Logged ε β) : Logged ε β :=
  match x.outcome with
  | .ok a => ⟨x.events ++ (f a).events, (f a).outcome⟩
  | .error e => ⟨x.events, .error e⟩

/-- A computation with its error seen as another one. -/
def mapError (f : ε → ε') (x : Logged ε α) : Logged ε' α :=
  ⟨x.events, x.outcome.mapError f⟩

instance : Monad (Logged ε) where
  pure a := ofExcept (.ok a)
  bind := bind

instance : MonadLift (Except ε) (Logged ε) where
  monadLift := ofExcept

/-- The outcome of a sequence is the sequence of the outcomes. -/
theorem outcome_bind (x : Logged ε α) (f : α → Logged ε β) :
    (x >>= f).outcome = x.outcome >>= fun a => (f a).outcome := by
  obtain ⟨events, outcome⟩ := x
  cases outcome <;> rfl

end Logged

end Reckon
