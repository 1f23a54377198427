/-
The linter as an executable that is run once for every request, and once to ask it for
its version.
-/
import Lintmark.Command

namespace Lintmark

def versionTag : List Char := ['v', 'e', 'r', 's', 'i', 'o', 'n', ':']

/-- What a line has behind the version tag, if that is anything. -/
def taggedVersion? (line : List Char) : Option (List Char) :=
  if versionTag.isPrefixOf line && versionTag.length < line.length then
    some (line.drop versionTag.length)
  else none

/-- The version in an answer: what stands behind the tag on the first line that
has both, and otherwise the whole answer; trimmed. -/
def parseVersion (output : String) : String :=
  match (output.toList.splitOn '\n').findSome? taggedVersion? with
  | some v => String.ofList (Text.trimBoth v)
  | none => Text.trim output

/-- The linter's executable and the time limit of one run. -/
structure LinterProgram where
  executable : Path := ⟨defaultExecutable⟩
  timeout : Duration := .ofSecs defaultTimeoutSecs
deriving Repr, DecidableEq

namespace LinterProgram

def ofSettings (s : Settings) : LinterProgram :=
  { executable := s.resolvedExecutable, timeout := s.timeout }

def linter (l : LinterProgram) (run : Runner) : Linter := fun r =>
  (run (.lint l.executable l.timeout r)).map fun
    | .ok output => .ok output.toTool
    | .error e => .error e.toInvocation

/-- The version in the answer to a version query.  It is empty if the query did
not go well or the executable was not found. -/
def versionOf : Except CommandError CommandOutput → Except InvocationError String
  | .ok output => .ok (if output.exit = some 0 then parseVersion output.stdout else "")
  | .error (.spawn command executable cause) =>
    if cause.isNotFound then .ok ""
    else .error (CommandError.spawn command executable cause).toInvocation
  | .error e => .error e.toInvocation

def version (l : LinterProgram) (run : Runner) : Attempt (Except InvocationError String) :=
  (run (.version l.executable l.timeout)).map versionOf

end LinterProgram

end Lintmark
