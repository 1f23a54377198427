/-
The external linter: what it is asked, what it answers, and how asking it can
fail.
-/
import Lintmark.Attempt
import Lintmark.Path
import Lintmark.SystemError

namespace Lintmark

structure Duration where
  nanos : Nat
deriving Repr, DecidableEq

namespace Duration

def ofSecs (n : Nat) : Duration :=
  ⟨n * 1000000000⟩

/-- A number in a unit of `10^places` nanoseconds: the exact fraction, without
zeros at its end. -/
def inUnit (nanos places : Nat) : List Char :=
  let whole := Nat.toDigits 10 (nanos / Nat.pow 10 places)
  let rest := Nat.toDigits 10 (nanos % Nat.pow 10 places)
  let padded := List.replicate (places - rest.length) '0' ++ rest
  match (padded.reverse.dropWhile (· == '0')).reverse with
  | [] => whole
  | fraction => whole ++ '.' :: fraction

/-- The text of a duration, in the largest of the units s, ms, µs and ns of
which it holds at least one. -/
def text (d : Duration) : String :=
  if d.nanos ≥ 1000000000 then String.ofList (inUnit d.nanos 9) ++ "s"
  else if d.nanos ≥ 1000000 then String.ofList (inUnit d.nanos 6) ++ "ms"
  else if d.nanos ≥ 1000 then String.ofList (inUnit d.nanos 3) ++ "µs"
  else toString d.nanos ++ "ns"

end Duration

structure LintRequest where
  workingDir : Path
  file : Path
  /-- Unsaved text; without it the linter reads the file. -/
  content : Option String := none
deriving Repr, DecidableEq

/-- What a run of the linter wrote and how it ended. -/
structure ToolOutput where
  stdout : String := ""
  stderr : String := ""
  /-- Exit code, or none if a signal ended the run. -/
  exit : Option Int := none
deriving Repr, DecidableEq

inductive InvocationError where
  | missingExecutable (path : Path)
  | spawn (command : String) (cause : SystemError)
  | io (cause : SystemError)
  | timeout (command : String) (limit : Duration)
deriving Repr, DecidableEq

def timeoutMessage (command : String) (limit : Duration) : String :=
  "command '" ++ command ++ "' timed out after " ++ limit.text

def spawnMessage (command : String) (cause : SystemError) : String :=
  "failed to start '" ++ command ++ "': " ++ cause.message

def InvocationError.message : InvocationError → String
  | missingExecutable path => "linter executable not found: " ++ path.text
  | spawn command cause => spawnMessage command cause
  | io cause => "I/O error while talking to the linter: " ++ cause.message
  | timeout command limit => timeoutMessage command limit

/-- A linter, as what comes of the requests that it is given. -/
abbrev Linter := LintRequest → Attempt (Except InvocationError ToolOutput)

end Lintmark
