/-
One check: run the linter, decode its answer and place it on the document.  A
check that fails gives no annotations, and says why.
-/
import Lintmark.Annotation
import Lintmark.Issue.Decode
import Lintmark.Linter

namespace Lintmark

inductive NotificationKind where
  | error
  | warning
  | info
deriving Repr, DecidableEq

def NotificationKind.label : NotificationKind → String
  | error => "error"
  | warning => "warning"
  | info => "info"

/-- A message to the user. -/
structure Notification where
  kind : NotificationKind
  message : String
deriving Repr, DecidableEq

/-- Why a check gave no annotations. -/
inductive CheckError where
  | invocation (e : InvocationError)
  | toolReported (stderr : String)
  | unexpectedExit (exit : Option Int) (output : String)
  | unreadable (e : OutputError)
deriving Repr, DecidableEq

/-- Exit codes of a run that went well: without and with issues. -/
def expectedExits : List Int := [0, 1]

namespace CheckError

def exitLabel : Option Int → String
  | some n => "exit code " ++ toString n
  | none => "terminated by signal"

def message : CheckError → String
  | invocation e => e.message
  | toolReported stderr => "linter reported: " ++ stderr
  | unexpectedExit exit output =>
    "linter exited unexpectedly (" ++ exitLabel exit ++ "): " ++ output
  | unreadable e => e.message

def isTimeout : CheckError → Bool
  | invocation (.timeout _ _) => true
  | _ => false

def notification (e : CheckError) : Notification :=
  match e with
  | toolReported stderr => ⟨.warning, stderr⟩
  | invocation (.missingExecutable path) =>
    ⟨.warning, (InvocationError.missingExecutable path).message⟩
  | invocation cause => ⟨.error, "Error running shellcheck inspection: " ++ cause.message⟩
  | unexpectedExit _ _ => ⟨.error, e.message⟩
  | unreadable cause => ⟨.error, Text.trim cause.raw⟩

end CheckError

/-- The issues of a run.  Its output counts only if nothing was written to the
error output and the exit code is an expected one. -/
def ToolOutput.issues (o : ToolOutput) : Except CheckError (List Issue) :=
  let stderr := Text.trim o.stderr
  if stderr ≠ "" then .error (.toolReported stderr)
  else if o.exit.any (· ∈ expectedExits) then
    match parseIssues o.stdout with
    | .ok issues => .ok issues
    | .error e => .error (.unreadable e)
  else .error (.unexpectedExit o.exit (Text.trim o.stdout))

/-- Annotations of a document from what the linter answered. -/
def Document.check (d : Document) (o : AnnotationOptions)
    (answer : Except InvocationError ToolOutput) : Except CheckError (List Annotation) :=
  match answer with
  | .error e => .error (.invocation e)
  | .ok output => output.issues.map (d.annotations o)

/-- What a check shows: annotations, or a message in their place. -/
structure CheckReport where
  annotations : List Annotation := []
  notification : Option Notification := none
deriving Repr, DecidableEq

/-- A check that turns failure into a message. -/
def Document.checkReport (d : Document) (o : AnnotationOptions)
    (answer : Except InvocationError ToolOutput) : CheckReport :=
  match d.check o answer with
  | .ok annotations => { annotations }
  | .error e => { notification := some e.notification }

end Lintmark
