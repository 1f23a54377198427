/-
Issues from the linter's output.  The output is a list of issues, or an object
whose only member named `comments` is such a list.  Output that is neither
gives no issues at all.
-/
import Lintmark.Issue
import Lintmark.Json.Reader

namespace Lintmark

inductive IssueField where
  | line
  | endLine
  | column
  | endColumn
  | level
  | code
  | message
deriving Repr, DecidableEq

namespace IssueField

/-- The members in the order of issues written as lists. -/
def all : List IssueField :=
  [line, endLine, column, endColumn, level, code, message]

def name : IssueField → String
  | line => "line"
  | endLine => "endLine"
  | column => "column"
  | endColumn => "endColumn"
  | level => "level"
  | code => "code"
  | message => "message"

def ofName? (s : String) : Option IssueField :=
  all.find? fun f => f.name == s

end IssueField

namespace Issue

/-- A whole number from zero on. -/
def natural? : Json.Value → Option Nat
  | .number (.natural n) => some n
  | _ => none

def string? : Json.Value → Option String
  | .string s => some s
  | _ => none

/-- A code: a number or a string, or null for none. -/
def code? : Json.Value → Option (Option String)
  | .null => some none
  | .number (.natural n) => some (some (toString n))
  | .string s => some (some s)
  | _ => none

/-- Set one member, if the value has its type. -/
def set? (i : Issue) (v : Json.Value) : IssueField → Option Issue
  | .line => (natural? v).map fun n => { i with line := n }
  | .endLine => (natural? v).map fun n => { i with endLine := n }
  | .column => (natural? v).map fun n => { i with column := n }
  | .endColumn => (natural? v).map fun n => { i with endColumn := n }
  | .level => (string? v).map fun s => { i with level := s }
  | .code => (code? v).map fun c => { i with code := c }
  | .message => (string? v).map fun s => { i with message := s }

/-- Set the members of an object.  Unknown names are passed over, and a member
in `seen` must not come again. -/
def setMembers? (i : Issue) (seen : List IssueField) :
    List (String × Json.Value) → Option Issue
  | [] => some i
  | (name, v) :: ms =>
    match IssueField.ofName? name with
    | none => i.setMembers? seen ms
    | some f => if f ∈ seen then none else (i.set? v f).bind (·.setMembers? (f :: seen) ms)

/-- Set members from a list of values, one each and none too many. -/
def setItems? (i : Issue) : List IssueField → List Json.Value → Option Issue
  | _, [] => some i
  | [], _ :: _ => none
  | f :: fs, v :: vs => (i.set? v f).bind (·.setItems? fs vs)

/-- An issue from its JSON value: an object, or a list of members in order. -/
def ofValue? : Json.Value → Option Issue
  | .object ms => setMembers? {} [] ms
  | .array vs => setItems? {} IssueField.all vs
  | _ => none

def listOfValue? : Json.Value → Option (List Issue)
  | .array vs => vs.mapM ofValue?
  | _ => none

/-- The issues of a whole output. -/
def ofOutput? : Json.Value → Option (List Issue)
  | .object ms =>
    match ms.filter (·.1 == "comments") with
    | [(_, v)] => listOfValue? v
    | _ => none
  | v => listOfValue? v

end Issue

inductive OutputFlaw where
  | malformed (f : Json.Failure)
  | mismatch
deriving Repr, DecidableEq

/-- Output that is not recognized, kept word for word. -/
structure OutputError where
  raw : String
  flaw : OutputFlaw
deriving Repr, DecidableEq

def OutputError.message (e : OutputError) : String :=
  "unrecognized linter output: " ++
    match e.flaw with
    | .malformed f => f.message e.raw.toList
    | .mismatch => "data did not match any variant of untagged enum Output"

/-- Read the issues of output that is not blank.  Characters behind the value
matter only if the value fits. -/
def readIssues (cs : List Char) : Except OutputFlaw (List Issue) :=
  match Json.value cs with
  | .error f => .error (.malformed f)
  | .ok (v, rest) =>
    match Issue.ofOutput? v with
    | none => .error .mismatch
    | some issues =>
      match Json.atEnd rest with
      | .error f => .error (.malformed f)
      | .ok () => .ok issues

/-- The issues that the linter wrote.  Blank output has none. -/
def parseIssues (raw : String) : Except OutputError (List Issue) :=
  if Text.allBlank raw then .ok []
  else
    match readIssues raw.toList with
    | .ok issues => .ok issues
    | .error flaw => .error ⟨raw, flaw⟩

end Lintmark
