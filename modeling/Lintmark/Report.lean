/-
Reports on checked files and the texts they are shown in.
-/
import Lintmark.Check
import Lintmark.Json.Printer

namespace Lintmark

/-- The outcome of checking one file. -/
structure FileReport where
  path : Path
  document : Document
  annotations : List Annotation := []
  notification : Option Notification := none
deriving Repr, DecidableEq

namespace FileReport

/-- The file has an error, or its check did not go through. -/
def failed (r : FileReport) : Bool :=
  r.annotations.any (·.severity == .error) || r.notification.any (·.kind != .info)

end FileReport

/-- The line for one annotation: path, line and character column counted from
one, severity and message. -/
def humanLine (path : Path) (d : Document) (a : Annotation) : String :=
  let p := d.positionOf a.start
  path.text ++ ":" ++ toString (p.line + 1) ++ ":" ++ toString (p.column + 1) ++ ": " ++
    a.severity.label ++ ": " ++ a.message

/-- The line for a message, about a file or in general. -/
def notificationLine (path : Option Path) (n : Notification) : String :=
  let line := n.kind.label ++ ": " ++ n.message
  match path with
  | some p => p.text ++ ": " ++ line
  | none => line

/-- Lines, each with its line feed. -/
def unlines (lines : List String) : String :=
  String.join (lines.map (· ++ "\n"))

/-- One line for each annotation. -/
def humanText (reports : List FileReport) : String :=
  unlines (reports.flatMap fun r => r.annotations.map (humanLine r.path r.document))

def notificationsText (reports : List FileReport) : String :=
  unlines (reports.filterMap fun r => r.notification.map (notificationLine (some r.path)))

def Annotation.toJson (a : Annotation) : Json.Tree :=
  .object [
    ("range", .object [("start", .natural a.start), ("end", .natural a.stop)]),
    ("severity", .string a.severity.label),
    ("message", .string a.message),
    ("code", match a.code with
      | some c => .string c
      | none => .null),
    ("source", .string a.source),
    ("anchor_at_line_end", .bool a.atLineEnd)]

def Notification.toJson (n : Notification) : Json.Tree :=
  .object [("kind", .string n.kind.label), ("message", .string n.message)]

/-- A report as JSON.  The message is left out when there is none. -/
def FileReport.toJson (r : FileReport) : Json.Tree :=
  .object ([("path", .string r.path.text),
    ("annotations", .array (r.annotations.map Annotation.toJson))] ++
    (r.notification.map fun n => ("notification", n.toJson)).toList)

/-- All reports as one JSON text with a line feed behind it. -/
def jsonText (reports : List FileReport) : String :=
  (Json.Tree.array (reports.map FileReport.toJson)).text ++ "\n"

end Lintmark
