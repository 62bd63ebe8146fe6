/-
  Reckon — what a run of the program leaves on the usual host.

  There, a filter is a list of directives, set apart by commas: a level, a
  prefix of the parts of the program that events are from, or both
  (`debug`, `mathcheck_formula::cache`, `mathcheck_formula=trace`).  Of the
  directives for an event, the one with the longest prefix decides.

  This host is there to run the program: filters by the text of an event are
  left out, and so are the times of events.  What is proved about runs is
  proved of every host.
-/
import Reckon.CommandLine.Arguments

namespace Reckon

/-! ## Filters -/

/-- The verbosity that a level names, in any case.  From levels above `debug` on,
    no events are shown. -/
def Verbosity.ofName? (name : String) : Option Verbosity :=
  match name.toLower with
  | "off" | "error" | "warn" | "info" => some off
  | "debug" => some debug
  | "trace" => some trace
  | _ => none

/-- A part of a filter: which events are shown of the parts of the program whose
    names begin with a prefix. -/
structure Directive where
  origin : String
  verbosity : Verbosity

namespace Directive

/-- The directive that a text says; there is none if it has an unknown level. -/
def ofString? (text : String) : Option Directive :=
  let name := String.ofList (text.toList.takeWhile (· ≠ '='))
  match text.toList.dropWhile (· ≠ '=') with
  | [] => some ((Verbosity.ofName? name).elim ⟨name, .trace⟩ fun v => ⟨"", v⟩)
  | ['='] => some ⟨name, .trace⟩
  | _ :: level => (Verbosity.ofName? (Text.trim (String.ofList level))).map fun v => ⟨name, v⟩

/-- The texts between the commas of a filter, without blanks. -/
def texts (filter : String) : List String :=
  let split := filter.toList.foldr (fun c parts =>
    if c = ',' then [] :: parts else (c :: parts.headD []) :: parts.tail) [[]]
  (split.map fun cs => Text.trim (String.ofList cs)).filter (· ≠ "")

/-- Which events from an origin are shown.  Of directives with the same prefix,
    the last one decides. -/
def verbosityOf (directives : List Directive) (origin : String) : Verbosity :=
  let longer (best d : Directive) := if best.origin.length ≤ d.origin.length then d else best
  let fitting := directives.filter fun d => d.origin.toList.isPrefixOf origin.toList
  (fitting.foldl longer ⟨"", .off⟩).verbosity

end Directive

/-! ## The usual host -/

/-- The host that the program runs on by itself. -/
def Host.standard : Host where
  read := Request.ofArguments
  remark filter :=
    let unknown := (Directive.texts filter).filter fun text => (Directive.ofString? text).isNone
    String.join (unknown.map ("warning: invalid logging spec '" ++ · ++ "', ignoring it\n"))
  shows filter e :=
    let directives := (Directive.texts filter).filterMap Directive.ofString?
    (Directive.verbosityOf directives e.origin).shows e.level
  line _ e := "[" ++ e.level.label ++ " " ++ e.origin ++ "] " ++ e.message ++ "\n"

/-- The outcome of a run with the given arguments.  A setting of the
    environment, if there is one, decides which events are shown. -/
def Outcome.ofArguments (args : List String) (setting : Option String) : Outcome :=
  Host.standard.run args setting

end Reckon
