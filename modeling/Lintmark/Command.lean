/-
Command lines to run, with what is fed to them and how long they may take.
-/
import Lintmark.Settings

namespace Lintmark

structure Command where
  /-- A path, or a bare name to look up. -/
  executable : Path
  workingDir : Option Path := none
  args : List String := []
  /-- Text to feed; without it there is nothing to read. -/
  input : Option String := none
  timeout : Duration := .ofSecs defaultTimeoutSecs
deriving Repr, DecidableEq

namespace Command

/-- The command as it would be typed. -/
def line (c : Command) : String :=
  c.args.foldl (fun line arg => line ++ " " ++ arg) c.executable.text

def formatArg : String := "--format=json"

/-- The command that lints a request.  Unsaved text is fed to the linter, which
otherwise reads the file. -/
def lint (executable : Path) (timeout : Duration) (r : LintRequest) : Command where
  executable := executable
  workingDir := if r.workingDir.text = "" then none else some r.workingDir
  args := [formatArg, if r.content.isSome then "-" else r.file.text]
  input := r.content
  timeout := timeout

def version (executable : Path) (timeout : Duration) : Command where
  executable := executable
  args := ["--version"]
  timeout := timeout

end Command

inductive CommandError where
  | spawn (command : String) (executable : Path) (cause : SystemError)
  | io (cause : SystemError)
  /-- The command took too long.  It has been killed and waited for. -/
  | timeout (command : String) (limit : Duration)
deriving Repr, DecidableEq

namespace CommandError

def message : CommandError → String
  | spawn command _ cause => spawnMessage command cause
  | io cause => "I/O error: " ++ cause.message
  | timeout command limit => timeoutMessage command limit

/-- The error as the linter's.  A command that could not start because
something was not found counts as a missing executable. -/
def toInvocation : CommandError → InvocationError
  | spawn command executable cause =>
    if cause.isNotFound then .missingExecutable executable else .spawn command cause
  | io cause => .io cause
  | timeout command limit => .timeout command limit

end CommandError

/-- What a finished command gave. -/
structure CommandOutput where
  stdout : String
  stderr : String
  exit : Option Int
deriving Repr, DecidableEq

def CommandOutput.toTool (o : CommandOutput) : ToolOutput :=
  { stdout := o.stdout, stderr := o.stderr, exit := o.exit }

abbrev Runner := Command → Attempt (Except CommandError CommandOutput)

end Lintmark
