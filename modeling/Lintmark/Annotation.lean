/-
Annotations: findings placed on a document with their urgency, ready to be shown.
-/
import Lintmark.Span

namespace Lintmark

/-- Urgency of a finding, least urgent first. -/
inductive Severity where
  | info
  | warning
  | error
deriving Repr, DecidableEq

namespace Severity

def rank : Severity → Nat
  | info => 0
  | warning => 1
  | error => 2

/-- Severity of a level tag.  Tags other than `error` and `warning` are
informational, and `demote` turns errors into warnings. -/
def ofLevel (level : String) (demote : Bool) : Severity :=
  if level = "error" then if demote then warning else error
  else if level = "warning" then warning
  else info

def label : Severity → String
  | info => "info"
  | warning => "warning"
  | error => "error"

/-- The more urgent of two. -/
def max (a b : Severity) : Severity :=
  if a.rank ≤ b.rank then b else a

def min (a b : Severity) : Severity :=
  if a.rank ≤ b.rank then a else b

end Severity

def annotationSource : String := "shellcheck"

/-- One finding placed on a document. -/
structure Annotation where
  start : Nat
  stop : Nat
  severity : Severity
  message : String
  /-- The code with its SC in front. -/
  code : Option String
  source : String
  /-- Show the mark behind the last character of the line. -/
  atLineEnd : Bool
deriving Repr, DecidableEq

structure AnnotationOptions where
  /-- Highlight from the first character that is no indentation to the end of
  the line. -/
  wholeLine : Bool := false
  demote : Bool := false
deriving Repr, DecidableEq

namespace Document

/-- The annotation of an issue, if the issue fits the document. -/
def annotate? (d : Document) (o : AnnotationOptions) (i : Issue) : Option Annotation :=
  (d.spanOf? i).map fun s =>
    let h := d.highlight s o.wholeLine
    { start := h.start
      stop := h.stop
      severity := .ofLevel i.level o.demote
      message := i.formatted
      code := i.displayCode
      source := annotationSource
      atLineEnd := h.atLineEnd }

/-- The annotations of all issues that fit the document, in their order. -/
def annotations (d : Document) (o : AnnotationOptions) (issues : List Issue) : List Annotation :=
  issues.filterMap (d.annotate? o)

end Document

end Lintmark
