/-
The command line: what is printed, and with which exit code, for some arguments
on a machine.
-/
import Lintmark.CommandLine.Arguments
import Lintmark.Executable
import Lintmark.FileCheck
import Lintmark.Settings.Decode
import Lintmark.Linter.Program

namespace Lintmark.CommandLine

/-- The machine that the command line works on.  Whoever reads a file or runs a command for
a check goes by the number of its worker, so that nobody depends on what others find. -/
structure Machine where
  files : FileTree
  dir : Location
  searchPath : Option String
  /-- What comes of reading a file that is checked. -/
  read : Nat → Path → Attempt (Except SystemError String) := fun _ path =>
    files.readText dir path
  run : Nat → Runner
  jobs : Nat

structure Outcome where
  exit : Nat
  stdout : String := ""
  stderr : String := ""
deriving Repr, DecidableEq

/-- The exit code of a run that found nothing wrong. -/
def success : Nat := 0

/-- The exit code of a run that found something wrong, or failed. -/
def failure : Nat := 1

/-- The exit code for arguments that do not fit. -/
def misuse : Nat := 2

/-- The exit code of a run that broke down. -/
def breakdown : Nat := 101

/-- What an attempt shows, if it does not go on for ever.  A breakdown shows its exit code;
what it says of itself on the error output is left out. -/
def Outcome.of? : Attempt Outcome → Option Outcome
  | .ends outcome => some outcome
  | .breaks => some { exit := breakdown }
  | .never => none

def versionText : String := "shellcheck-annotate 0.3.0\n"

def numbered : Nat → List String → List String
  | _, [] => []
  | k, cause :: causes => ("    " ++ toString k ++ ": " ++ cause) :: numbered (k + 1) causes

/-- A message with what caused it.  A single cause has no number. -/
def errorText (message : String) (causes : List String) : String :=
  "Error: " ++ message ++ "\n" ++
    match causes with
    | [] => ""
    | [cause] => "\nCaused by:\n    " ++ cause ++ "\n"
    | causes => "\nCaused by:\n" ++ unlines (numbered 0 causes)

def Outcome.failed (message : String) (causes : List String) : Outcome :=
  { exit := failure, stderr := errorText message causes }

def invocationCauses : InvocationError → List String
  | .spawn _ cause => [cause.message]
  | .io cause => [cause.message]
  | .missingExecutable _ => []
  | .timeout _ _ => []

def GlobalOptions.override (o : GlobalOptions) (s : Settings) : Settings :=
  { s with
    executable := (o.shellcheck.map Path.text).getD s.executable
    wholeLine := o.wholeLine || s.wholeLine
    demote := o.errorsAsWarnings || s.demote
    timeoutSecs := o.timeoutSecs.getD s.timeoutSecs }

/-- The settings for a run: from the settings file, if one is given, and then
from options. -/
def Machine.settings (m : Machine) (o : GlobalOptions) : Attempt (Except Outcome Settings) :=
  match o.config with
  | none => .ends (.ok (o.override {}))
  | some path => (Settings.load m.files m.dir path).map fun
      | .ok s => .ok (o.override s)
      | .error e =>
        .error (.failed ("failed to load settings from " ++ path.text) [e.message, e.cause])

/-- The executable is a bare name, which is looked up when it is run. -/
def isBareName (p : Path) : Bool :=
  p.components.length ≤ 1 && !p.isAbsolute

/-- What is wrong with the configured executable.  A bare name is not examined. -/
def Machine.executableProblem? (m : Machine) (s : Settings) : Option Notification :=
  let executable := s.resolvedExecutable
  if isBareName executable ||
      Executable.isValid m.files m.dir (some (FileTree.pathOf m.dir)) executable then none
  else some ⟨.warning, "invalid shellcheck executable: " ++ executable.text⟩

def disabled : Notification :=
  ⟨.info, "ShellCheck is disabled in the settings, nothing was checked"⟩

def Format.text : Format → List FileReport → String
  | .human => humanText
  | .json => jsonText

def Outcome.ofReports (format : Format) (reports : List FileReport) : Outcome where
  exit := if reports.any FileReport.failed then failure else success
  stdout := format.text reports
  stderr := notificationsText reports

def Machine.checker (m : Machine) (s : Settings) : FileChecker where
  dir := FileTree.pathOf m.dir
  options := s.annotationOptions
  read := m.read
  linter := fun worker => (LinterProgram.ofSettings s).linter (m.run worker)

/-- The files that are checked: shell scripts, or all of them. -/
def kept (files : List Path) (allFiles : Bool) : List Path :=
  files.filter fun p => allFiles || p.isShellScript

def Machine.check (m : Machine) (s : Settings) (files : List Path) (format : Format)
    (allFiles : Bool) : Attempt Outcome :=
  if !s.enabled then .ends { exit := success, stderr := notificationLine none disabled ++ "\n" }
  else
    match m.executableProblem? s with
    | some problem =>
      .ends { exit := failure, stderr := notificationLine none problem ++ "\n" }
    | none =>
      ((m.checker s).checkAll m.jobs (kept files allFiles)).map fun
        | some reports => .ofReports format reports
        | none => .failed "check worker panicked" []

def Machine.version (m : Machine) (s : Settings) : Attempt Outcome :=
  ((LinterProgram.ofSettings s).version (m.run 0)).map fun
    | .error e => .failed e.message (invocationCauses e)
    | .ok version =>
      { exit := success, stdout := (if version = "" then "n.a." else version) ++ "\n" }

/-- Print the linters on the search path. -/
def Machine.find (m : Machine) : Outcome :=
  match Executable.inSearchPath m.files m.dir defaultExecutable m.searchPath with
  | [] => { exit := failure, stderr := "no shellcheck executable found on PATH\n" }
  | found => { exit := success, stdout := unlines (found.map Path.text) }

def Machine.perform (m : Machine) (s : Settings) : Task → Attempt Outcome
  | .check files format allFiles => m.check s files format allFiles
  | .version => m.version s
  | .find => .ends m.find

def Machine.answer (m : Machine) (r : Request) : Attempt Outcome :=
  (m.settings r.options).bind fun
    | .ok s => m.perform s r.task
    | .error outcome => .ends outcome

def Refusal.outcome : Refusal → Outcome
  | .help => { exit := success }
  | .version => { exit := success, stdout := versionText }
  | .misuse => { exit := CommandLine.misuse }

/-- Do what the arguments ask for.  There is no outcome if that goes on for ever. -/
def Machine.main (m : Machine) (args : List String) : Option Outcome :=
  match Request.ofArguments args with
  | .ok r => Outcome.of? (m.answer r)
  | .error refusal => some refusal.outcome

end Lintmark.CommandLine
