/-
Checking files: each worker reads one file, has its text linted and reports.
Workers run in chunks, and a chunk begins when the one before it has finished.
-/
import Lintmark.FileTree
import Lintmark.Report

namespace Lintmark

/-- What it takes to check files.  Workers are numbered from zero on, in the order of their
files; no two of them need to find the same file unchanged, or the linter of one mind. -/
structure FileChecker where
  dir : Path
  options : AnnotationOptions := {}
  /-- What comes of reading a file, by the number of the worker. -/
  read : Nat → Path → Attempt (Except SystemError String)
  linter : Nat → Linter

def FileReport.unreadable (path : Path) (cause : SystemError) : FileReport where
  path := path
  document := .ofString ""
  notification := some ⟨.error, "failed to read " ++ path.text ++ ": " ++ cause.message⟩

namespace FileChecker

def request (c : FileChecker) (path : Path) (text : String) : LintRequest :=
  { workingDir := c.dir, file := path, content := some text }

/-- The report on a file with this text, for which the linter gave this answer. -/
def report (c : FileChecker) (path : Path) (text : String)
    (answer : Except InvocationError ToolOutput) : FileReport :=
  let document := Document.ofString text
  let report := document.checkReport c.options answer
  { path, document, annotations := report.annotations, notification := report.notification }

/-- Have a worker check a file.  The text that is read here is what the linter is fed and
what its issues are placed on. -/
def check (c : FileChecker) (worker : Nat) (path : Path) : Attempt FileReport :=
  (c.read worker path).bind fun
    | .error cause => .ends (.unreadable path cause)
    | .ok text => (c.linter worker (c.request path text)).map (c.report path text)

end FileChecker

/-- Cut a list into chunks of `size` elements and a last one of at most `size`.
A size of zero counts as one. -/
def chunks {α : Type} (size : Nat) : List α → List (List α)
  | [] => []
  | a :: as => (a :: as.take (size - 1)) :: chunks size (as.drop (size - 1))
termination_by as => as.length
decreasing_by
  simp only [List.length_drop, List.length_cons]
  omega

/-- Wait for the workers of a chunk.  One that never ends is waited for in vain.  If one
breaks down, so that the caller gives up, there are no results; a second one makes the caller
break down as well. -/
def joinAll {α : Type} (workers : List (Attempt α)) : Attempt (Option (List α)) :=
  if workers.any Attempt.isNever then .never
  else
    match workers.countP Attempt.isBroken with
    | 0 => .ends (some (workers.filterMap Attempt.result?))
    | 1 => .ends none
    | _ => .breaks

/-- Let chunks of workers run, one after the other, until one gives no results. -/
def joinChunks {α : Type} : List (List (Attempt α)) → Attempt (Option (List α))
  | [] => .ends (some [])
  | chunk :: rest => (joinAll chunk).bind fun
      | none => .ends none
      | some results => (joinChunks rest).map (Option.map (results ++ ·))

namespace FileChecker

/-- What comes of the workers that check some files, each with its number. -/
def checkEach (c : FileChecker) (files : List (Path × Nat)) : List (Attempt FileReport) :=
  files.map fun (path, worker) => c.check worker path

/-- Check files with at most `jobs` workers at a time.  A worker that breaks down takes all
reports with it. -/
def checkAll (c : FileChecker) (jobs : Nat) (paths : List Path) :
    Attempt (Option (List FileReport)) :=
  joinChunks ((chunks jobs paths.zipIdx).map c.checkEach)

end FileChecker

end Lintmark
