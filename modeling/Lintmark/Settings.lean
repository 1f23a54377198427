/-
User settings and what follows from them.
-/
import Lintmark.Annotation
import Lintmark.Linter

namespace Lintmark

def defaultTimeoutSecs : Nat := 120

def defaultExecutable : String := "shellcheck"

structure Settings where
  /-- Path of the linter; blank to look it up. -/
  executable : String := ""
  demote : Bool := false
  wholeLine : Bool := false
  enabled : Bool := true
  /-- Time limit of one run in seconds; zero for the default. -/
  timeoutSecs : Nat := defaultTimeoutSecs
deriving Repr, DecidableEq

namespace Settings

def annotationOptions (s : Settings) : AnnotationOptions :=
  { wholeLine := s.wholeLine, demote := s.demote }

def timeout (s : Settings) : Duration :=
  .ofSecs (if s.timeoutSecs = 0 then defaultTimeoutSecs else s.timeoutSecs)

/-- The linter to run. -/
def resolvedExecutable (s : Settings) : Path :=
  let e := Text.trim s.executable
  ⟨if e = "" then defaultExecutable else e⟩

end Settings

end Lintmark
