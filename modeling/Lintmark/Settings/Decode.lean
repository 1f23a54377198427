/-
Settings from JSON text, which may be kept in a file.  The text is decoded as it
is read, so the first mistake in reading order is the one reported.
-/
import Lintmark.FileTree
import Lintmark.Json.Reader
import Lintmark.Settings

namespace Lintmark

inductive SettingsField where
  | executable
  | demote
  | wholeLine
  | enabled
  | timeoutSecs
deriving Repr, DecidableEq

namespace SettingsField

/-- The members in the order of settings written as lists. -/
def all : List SettingsField :=
  [executable, demote, wholeLine, enabled, timeoutSecs]

def name : SettingsField → String
  | executable => "shellcheckExecutable"
  | demote => "treatAllIssuesAsWarnings"
  | wholeLine => "highlightWholeLine"
  | enabled => "pluginEnabled"
  | timeoutSecs => "timeoutSecs"

def ofName? (s : String) : Option SettingsField :=
  all.find? fun f => f.name == s

end SettingsField

namespace Json

/-- Report the value that starts here as one of the wrong type.  Lists and
objects are not read. -/
def wrongType (expected : String) (cs : List Char) : Read α :=
  let wrong (found : Found) (rest : List Char) : Read α :=
    failBehind (.invalidType found expected) rest
  match cs with
  | [] => failOn .eofInValue []
  | 'n' :: rest => (word ['u', 'l', 'l'] rest).andThen fun _ rest => wrong .null rest
  | 't' :: rest => (word ['r', 'u', 'e'] rest).andThen fun _ rest => wrong (.bool true) rest
  | 'f' :: rest => (word ['a', 'l', 's', 'e'] rest).andThen fun _ rest => wrong (.bool false) rest
  | '"' :: rest => (string rest).andThen fun s rest => wrong (.string s) rest
  | '[' :: rest => wrong .array ('[' :: rest)
  | '{' :: rest => wrong .object ('{' :: rest)
  | c :: rest =>
    if c = '-' || isDigit c then
      (number (c :: rest)).andThen fun n rest => wrong (.number n) rest
    else failOn .valueExpected (c :: rest)

def expectString (cs : List Char) : Read String :=
  match skipSpace cs with
  | '"' :: rest => string rest
  | rest => wrongType "a string" rest

def expectBool (cs : List Char) : Read Bool :=
  match skipSpace cs with
  | 't' :: rest => (word ['r', 'u', 'e'] rest).andThen fun _ rest => .ok (true, rest)
  | 'f' :: rest => (word ['a', 'l', 's', 'e'] rest).andThen fun _ rest => .ok (false, rest)
  | rest => wrongType "a boolean" rest

def expectNatural (cs : List Char) : Read Nat :=
  match skipSpace cs with
  | c :: rest =>
    if c = '-' || isDigit c then
      (number (c :: rest)).andThen fun n rest =>
        match n with
        | .natural n => .ok (n, rest)
        | .negative n => failBehind (.invalidValue (.number (.negative n)) "u64") rest
        | .float minus a => failBehind (.invalidType (.number (.float minus a)) "u64") rest
    else wrongType "u64" (c :: rest)
  | [] => wrongType "u64" []

end Json

namespace Settings

open Json

def readField (s : Settings) (f : SettingsField) (cs : List Char) : Read Settings :=
  match f with
  | .executable => (expectString cs).andThen fun v rest => .ok ({ s with executable := v }, rest)
  | .demote => (expectBool cs).andThen fun v rest => .ok ({ s with demote := v }, rest)
  | .wholeLine => (expectBool cs).andThen fun v rest => .ok ({ s with wholeLine := v }, rest)
  | .enabled => (expectBool cs).andThen fun v rest => .ok ({ s with enabled := v }, rest)
  | .timeoutSecs =>
    (expectNatural cs).andThen fun v rest => .ok ({ s with timeoutSecs := v }, rest)

/-- The characters behind a name that came twice: space is read, and so is a
brace that follows. -/
def behindDuplicate (cs : List Char) : List Char :=
  match skipSpace cs with
  | '}' :: rest => rest
  | rest => rest

/-- Read the members of an object with `fuel` steps left; `first` before the
first one, and `seen` the members that must not come again. -/
def readMembers : Nat → Bool → List SettingsField → Settings → List Char → Read Settings
  | 0, _, _, _, cs => failBehind .eofInObject cs
  | fuel + 1, first, seen, s, cs =>
    let member (cs : List Char) : Read Settings :=
      match cs with
      | '"' :: rest =>
        (string rest).andThen fun name rest =>
          let field := SettingsField.ofName? name
          if field.any (· ∈ seen) then failBehind (.duplicateField name) (behindDuplicate rest)
          else
            match skipSpace rest with
            | [] => failOn .eofInObject []
            | ':' :: rest =>
              match field with
              | some f =>
                (s.readField f rest).andThen fun s rest => readMembers fuel false (f :: seen) s rest
              | none =>
                (skipValue rest).andThen fun _ rest => readMembers fuel false seen s rest
            | rest => failOn .colonExpected rest
      | _ => failOn .keyNotString cs
    match skipSpace cs with
    | [] => failOn .eofInObject []
    | '}' :: rest => .ok (s, rest)
    | c :: rest =>
      if first then member (c :: rest)
      else if c = ',' then
        match skipSpace rest with
        | [] => failOn .eofInValue []
        | '}' :: rest => failOn .trailingComma ('}' :: rest)
        | rest => member rest
      else failOn .objectCommaOrEndExpected (c :: rest)

/-- Read the end of a list that has no room for more items. -/
def readListEnd (cs : List Char) : Read Unit :=
  match skipSpace cs with
  | [] => failOn .eofInList []
  | ']' :: rest => .ok ((), rest)
  | ',' :: rest =>
    match skipSpace rest with
    | ']' :: rest => failOn .trailingComma (']' :: rest)
    | rest => failOn .trailingCharacters rest
  | rest => failOn .trailingCharacters rest

/-- Read the given members from the items of a list; `first` before the first
one.  The list may end early. -/
def readItems : List SettingsField → Bool → Settings → List Char → Read Settings
  | [], _, s, cs => (readListEnd cs).andThen fun _ rest => .ok (s, rest)
  | f :: fs, first, s, cs =>
    match skipSpace cs with
    | [] => failOn .eofInList []
    | ']' :: rest => .ok (s, rest)
    | c :: rest =>
      if first then
        (s.readField f (c :: rest)).andThen fun s rest => readItems fs false s rest
      else if c = ',' then
        match skipSpace rest with
        | [] => failOn .eofInValue []
        | ']' :: rest => failOn .trailingComma (']' :: rest)
        | rest => (s.readField f rest).andThen fun s rest => readItems fs false s rest
      else failOn .listCommaOrEndExpected (c :: rest)

/-- Read settings, an object or a list. -/
def read (cs : List Char) : Read Settings :=
  match skipSpace cs with
  | '[' :: rest => readItems SettingsField.all true {} rest
  | '{' :: rest => readMembers (rest.length + 1) true [] {} rest
  | rest => wrongType "struct Settings" rest

/-- The settings that a whole text holds. -/
def ofJson (text : String) : Except Failure Settings :=
  match read text.toList with
  | .error f => .error f
  | .ok (s, rest) => (atEnd rest).map fun _ => s

end Settings

inductive SettingsError where
  | unreadable (cause : SystemError)
  /-- The text, kept here, is not JSON for settings. -/
  | malformed (text : String) (failure : Json.Failure)
deriving Repr, DecidableEq

namespace SettingsError

def cause : SettingsError → String
  | unreadable cause => cause.message
  | malformed text failure => failure.message text.toList

def message (e : SettingsError) : String :=
  match e with
  | unreadable _ => "I/O error: " ++ e.cause
  | malformed _ _ => "invalid settings: " ++ e.cause

end SettingsError

namespace Settings

def parse (text : String) : Except SettingsError Settings :=
  match ofJson text with
  | .ok s => .ok s
  | .error f => .error (.malformed text f)

def load (t : FileTree) (dir : Location) (p : Path) : Attempt (Except SettingsError Settings) :=
  (t.readText dir p).map fun
    | .ok text => parse text
    | .error cause => .error (.unreadable cause)

end Settings

end Lintmark
