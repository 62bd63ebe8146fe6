/-
  Reckon — the commands of the program.

  A command evaluates a formula, shows how it is grouped, lists its tokens or
  evaluates the two sides of an equation.  `Command.perform` is what it
  prints, or why it fails, with the events on the way.
-/
import Reckon.Cache
import Reckon.Equation
import Reckon.Text.Blank

namespace Reckon

/-! ## Failures -/

/-- Why a command fails. -/
inductive Failure where
  /-- a setting without `=` -/
  | notSetting (setting : String)
  /-- a setting whose value is no number -/
  | badValue (name : String) (fault : NumberFault)
  | evaluating (formula : String) (e : Error)
  | parsing (formula : String) (e : Error)
  | tokenizing (formula : String) (e : Error)
  | splitting (e : Error)
  | evaluatingLeft (side : String) (e : Error)
  | evaluatingRight (side : String) (e : Error)

namespace Failure

/-- What failed. -/
def headline : Failure → String
  | notSetting setting => "Binding '" ++ setting ++ "' must look like name=value"
  | badValue name _ => "Invalid value for '" ++ name ++ "'"
  | evaluating formula _ => "Failed to evaluate '" ++ formula ++ "'"
  | parsing formula _ => "Failed to parse '" ++ formula ++ "'"
  | tokenizing formula _ => "Failed to tokenize '" ++ formula ++ "'"
  | splitting e => e.message
  | evaluatingLeft side _ => "Failed to evaluate left side '" ++ side ++ "'"
  | evaluatingRight side _ => "Failed to evaluate right side '" ++ side ++ "'"

/-- Why it failed, if the headline does not say it. -/
def cause? : Failure → Option String
  | notSetting _ | splitting _ => none
  | badValue _ fault => some fault.message
  | evaluating _ e | parsing _ e | tokenizing _ e | evaluatingLeft _ e | evaluatingRight _ e =>
    some e.message

/-- A failure as the user is told of it. -/
def report (f : Failure) : String :=
  match f.cause? with
  | none => "Error: " ++ f.headline ++ "\n"
  | some cause => "Error: " ++ f.headline ++ "\n\nCaused by:\n    " ++ cause ++ "\n"

end Failure

/-! ## Settings -/

/-- The value of a variable, read from a text such as `x=2.5`: a name and a
    number around the first `=`, with blanks around them. -/
def readSetting (setting : String) : Except Failure (String × Binary64) :=
  let name := String.ofList (setting.toList.takeWhile (· ≠ '='))
  match setting.toList.dropWhile (· ≠ '=') with
  | [] => .error (.notSetting setting)
  | _ :: value =>
    match Binary64.read (Text.trim (String.ofList value)) with
    | .error fault => .error (.badValue name fault)
    | .ok x => .ok (Text.trim name, x)

/-- The values of variables, read in order, of which later ones win. -/
def readSettings (settings : List String) : Except Failure Valuation := do
  return .ofList (← settings.mapM readSetting)

/-! ## Commands -/

/-- What the program can be asked to do. -/
inductive Command where
  | eval (formula : String) (settings : List String)
  | tree (formula : String)
  | tokens (formula : String)
  | sides (equation : String) (settings : List String)

/-- The value of a formula. -/
def performEval (formula : String) (settings : List String) : Logged Failure String := do
  let b ← readSettings settings
  let x ← ((Cache.new {}).evaluate formula b).1.mapError (.evaluating formula)
  return x.text ++ "\n"

/-- The grouping of a formula, and the names of its variables if it has any. -/
def performTree (formula : String) : Logged Failure String := do
  let shared ← ((Cache.new {}).get formula).1.mapError (.parsing formula)
  let names := shared.formula.variables
  return shared.formula.text ++ "\n" ++
    if names.isEmpty then "" else "Variables: " ++ ", ".intercalate names ++ "\n"

/-- The tokens of a formula, one a line. -/
def performTokens (formula : String) : Logged Failure String := do
  let tokens ← (tokenizeLogged formula).mapError (.tokenizing formula)
  return String.join (tokens.map fun t => t.describe ++ "\n")

/-- The values of the two sides of an equation. -/
def performSides (equation : String) (settings : List String) : Logged Failure String := do
  let b ← readSettings settings
  let sides ← (Equation.split equation).mapError Failure.splitting
  let (left, c) := (Cache.new {}).evaluate sides.left b
  let x ← left.mapError (.evaluatingLeft sides.left)
  let (right, _) := c.evaluate sides.right b
  let y ← right.mapError (.evaluatingRight sides.right)
  return "left\t" ++ x.text ++ "\nright\t" ++ y.text ++ "\n"

/-- What a command prints, or why it fails. -/
def Command.perform : Command → Logged Failure String
  | eval formula settings => performEval formula settings
  | tree formula => performTree formula
  | tokens formula => performTokens formula
  | sides equation settings => performSides equation settings

end Reckon
