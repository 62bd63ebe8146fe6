/-
  Reckon — the arguments of the program, as they are usually read.

  The arguments are options and one of the commands `eval` (or `calc`),
  `tree`, `tokens` and `sides` with its options and its text.

  * `-v` or `--verbose` shows events; it may stand before the command and,
    again, behind it;
  * `-V` or `--version`, before the command, asks for the version only;
  * `-h` or `--help`, and the command `help`, ask for help only;
  * `-s` or `--set` gives a setting to `eval` or `sides`.

  Short options can be joined (`-vs x=1`); the rest of an argument with `-s`
  is its setting, after a `=` or without it.  An argument that begins with a
  minus is an option, unless it is the minus alone or comes after `--`.

  This is the way of the usual host; what is proved about runs is proved of
  every host.
-/
import Reckon.CommandLine.Host

namespace Reckon

/-- An argument by its form. -/
inductive Argument where
  /-- the argument `--`, after which there are no options -/
  | endOfOptions
  /-- an option by its name, with the value behind its `=` -/
  | long (name : String) (value : Option String)
  /-- joined options of one letter -/
  | short (letters : List Char)
  | plain (text : String)

/-- The form of an argument. -/
def Argument.ofString (text : String) : Argument :=
  match text.toList with
  | ['-', '-'] => endOfOptions
  | '-' :: '-' :: cs =>
    let name := String.ofList (cs.takeWhile (· ≠ '='))
    match cs.dropWhile (· ≠ '=') with
    | [] => long name none
    | _ :: value => long name (some (String.ofList value))
  | '-' :: c :: cs => short (c :: cs)
  | _ => plain text

/-- Why arguments are not read to the end. -/
inductive Stop where
  | help
  | version
  | misuse

namespace Stop

def usage : String :=
  "usage: mathcheck [-v] (eval | tree | tokens | sides) [-s NAME=VALUE]... TEXT\n"

/-- What arguments ask for that are not read to the end. -/
def request : Stop → Request
  | help => .tell usage
  | version => .tell "mathcheck 0.1.0\n"
  | misuse => .refuse usage

end Stop

/-! ## The arguments of a command -/

/-- What the arguments of a command have given so far. -/
structure Given where
  verbose : Bool := false
  settings : List String := []
  text : Option String := none

namespace Given

/-- Take the option to show events, once. -/
def takeVerbose (g : Given) : Except Stop Given :=
  if g.verbose then .error .misuse else .ok { g with verbose := true }

/-- Take a setting, if the command has settings. -/
def takeSetting (hasSettings : Bool) (g : Given) (setting : String) : Except Stop Given :=
  if hasSettings then .ok { g with settings := g.settings ++ [setting] } else .error .misuse

/-- Take the text of the command, once. -/
def takeText (g : Given) (text : String) : Except Stop Given :=
  if g.text.isSome then .error .misuse else .ok { g with text }

/-- Take joined options, and tell whether the last one is `-s` and its setting
    is still to come. -/
def takeLetters (hasSettings : Bool) (g : Given) : List Char → Except Stop (Given × Bool)
  | [] => .ok (g, false)
  | 'v' :: cs => do takeLetters hasSettings (← g.takeVerbose) cs
  | 'h' :: _ => .error .help
  | ['s'] => if hasSettings then .ok (g, true) else .error .misuse
  | 's' :: '=' :: cs => do return (← g.takeSetting hasSettings (String.ofList cs), false)
  | 's' :: cs => do return (← g.takeSetting hasSettings (String.ofList cs), false)
  | _ => .error .misuse

/-- Take the arguments of a command.  `awaiting` tells whether the next one
    has to be a setting. -/
def takeAll (hasSettings awaiting : Bool) (g : Given) : List String → Except Stop Given
  | [] => if awaiting then .error .misuse else .ok g
  | arg :: args =>
    match Argument.ofString arg, awaiting with
    | .plain text, true => do
      takeAll hasSettings false (← g.takeSetting hasSettings text) args
    | _, true => .error .misuse
    | .plain text, false => do takeAll hasSettings false (← g.takeText text) args
    | .endOfOptions, false => args.foldlM takeText g
    | .short letters, false => do
      let (g, awaiting) ← g.takeLetters hasSettings letters
      takeAll hasSettings awaiting g args
    | .long "verbose" none, false => do takeAll hasSettings false (← g.takeVerbose) args
    | .long "help" none, false => .error .help
    | .long "set" (some setting), false => do
      takeAll hasSettings false (← g.takeSetting hasSettings setting) args
    | .long "set" none, false =>
      if hasSettings then takeAll hasSettings true g args else .error .misuse
    | .long _ _, false => .error .misuse

end Given

/-! ## All arguments -/

/-- What the name of a command stands for: whether there are settings, and the
    command for a text and settings. -/
structure Command.Form where
  hasSettings : Bool
  ofText : (text : String) → (settings : List String) → Command

/-- The command of a name. -/
def Command.Form.ofName? : String → Option Form
  | "eval" | "calc" => some ⟨true, .eval⟩
  | "tree" => some ⟨false, fun text _ => .tree text⟩
  | "tokens" => some ⟨false, fun text _ => .tokens text⟩
  | "sides" => some ⟨true, .sides⟩
  | _ => none

namespace Request

/-- The request of a command with its arguments. -/
def ofForm (verbose : Bool) (form : Command.Form) (args : List String) : Except Stop Request := do
  let g ← Given.takeAll form.hasSettings false {} args
  match g.text with
  | none => .error .misuse
  | some text => return perform (verbose || g.verbose) (form.ofText text g.settings)

/-- Why the arguments of `help` are not read any further: there may be the name
    of one command. -/
def helpOn : List String → Stop
  | [] | ["help"] => .help
  | [name] => if (Command.Form.ofName? name).isSome then .help else .misuse
  | _ => .misuse

/-- The letters of joined options before the command, which tell whether events
    are shown. -/
def takeLetters (verbose : Bool) : List Char → Except Stop Bool
  | [] => .ok verbose
  | 'v' :: cs => if verbose then .error .misuse else takeLetters true cs
  | 'V' :: _ => .error .version
  | 'h' :: _ => .error .help
  | _ => .error .misuse

/-- The request of arguments, after options that tell whether events are shown. -/
def takeAll (verbose : Bool) : List String → Except Stop Request
  | [] => .error .misuse
  | arg :: args =>
    match Argument.ofString arg with
    | .plain "help" => .error (helpOn args)
    | .plain name =>
      match Command.Form.ofName? name with
      | none => .error .misuse
      | some form => ofForm verbose form args
    | .long "version" none => .error .version
    | .long "help" none => .error .help
    | .long "verbose" none => if verbose then .error .misuse else takeAll true args
    | .short letters => do takeAll (← takeLetters verbose letters) args
    | _ => .error .misuse

/-- What arguments ask for. -/
def ofArguments (args : List String) : Request :=
  match takeAll false args with
  | .ok request => request
  | .error stop => stop.request

end Request

end Reckon
