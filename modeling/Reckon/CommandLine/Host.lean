/-
  Reckon — the program and what it runs on.

  A run reads its arguments, prints its result and exits with 0, or tells on
  the error output why it failed and exits with 1.  Before that it shows events
  on the error output, as far as a filter lets them through.

  Three things are not the program's own and stand in a `Host`: how arguments
  are read, which events a filter lets through, and how an event is written.
  The program only decides which filter there is (`filterOf`) and what a
  command does; `Host.run` is a run on any host.
-/
import Reckon.CommandLine

namespace Reckon

/-- What arguments ask for. -/
inductive Request where
  /-- a command; `verbose` tells whether they ask for events, too -/
  | perform (verbose : Bool) (command : Command)
  /-- a text about the program, such as its version -/
  | tell (text : String)
  /-- they cannot be used, as the text says -/
  | refuse (text : String)

/-- What a run leaves: its exit code and what it wrote. -/
structure Outcome where
  exitCode : Nat
  stdout : String
  stderr : String
deriving DecidableEq

/-- What the program runs on. -/
structure Host where
  /-- what arguments ask for -/
  read : (args : List String) → Request
  /-- what is said about a filter itself, if it is not well-formed -/
  remark : (filter : String) → String
  /-- whether a filter lets an event through -/
  shows : (filter : String) → Event → Bool
  /-- how an event is written that is the n-th one to be shown -/
  line : (n : Nat) → Event → String

/-- The filter of a run: the setting of the environment, if there is one.  Else
    events are shown from `debug` on if they are asked for, and from `warn` on
    if not. -/
def filterOf (verbose : Bool) (environment : Option String) : String :=
  environment.getD (if verbose then "debug" else "warn")

namespace Host

variable (h : Host)

/-- What is written about events. -/
def log (filter : String) (events : List Event) : String :=
  h.remark filter ++ String.join ((events.filter (h.shows filter)).mapIdx h.line)

/-- The outcome of a command. -/
def finish (filter : String) (run : Logged Failure String) : Outcome :=
  match run.outcome with
  | .ok text => ⟨0, text, h.log filter run.events⟩
  | .error failure => ⟨1, "", h.log filter run.events ++ failure.report⟩

/-- The outcome of a run with arguments and a setting of the environment, if
    there is one. -/
def run (args : List String) (environment : Option String) : Outcome :=
  match h.read args with
  | .perform verbose command => h.finish (filterOf verbose environment) command.perform
  | .tell text => ⟨0, text, ""⟩
  | .refuse text => ⟨2, "", text⟩

end Host

end Reckon
