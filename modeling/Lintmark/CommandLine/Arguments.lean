/-
What the arguments of the command line ask for.  Options are read at two levels:
in front of the command and behind it, where the command's own options stand
too.
-/
import Lintmark.Path

namespace Lintmark.CommandLine

inductive Format where
  | human
  | json
deriving Repr, DecidableEq

def Format.ofName? : String → Option Format
  | "human" => some .human
  | "json" => some .json
  | _ => none

inductive Switch where
  | config
  | shellcheck
  | timeout
  | format
  | wholeLine
  | errorsAsWarnings
  | allFiles
  | verbose
  | help
  | version
deriving Repr, DecidableEq

def Switch.takesValue : Switch → Bool
  | .config | .shellcheck | .timeout | .format => true
  | _ => false

inductive Command where
  | check
  | version
  | find
deriving Repr, DecidableEq

def Command.ofName? : String → Option Command
  | "check" => some .check
  | "version" => some .version
  | "find" => some .find
  | _ => none

/-- Where options stand: in front of the command or behind it. -/
abbrev Level := Option Command

/-- Long names of options, without the dashes. -/
def Switch.ofLongName? (l : Level) : String → Option Switch
  | "config" => some .config
  | "shellcheck" => some .shellcheck
  | "timeout" => some .timeout
  | "whole-line" => some .wholeLine
  | "errors-as-warnings" => some .errorsAsWarnings
  | "verbose" => some .verbose
  | "help" => some .help
  | "version" => if l = none then some .version else none
  | "format" => if l = some .check then some .format else none
  | "all-files" => if l = some .check then some .allFiles else none
  | _ => none

def Switch.ofShortName? (l : Level) : Char → Option Switch
  | 'c' => some .config
  | 'v' => some .verbose
  | 'h' => some .help
  | 'V' => if l = none then some .version else none
  | 'f' => if l = some .check then some .format else none
  | _ => none

/-- Why the arguments ask for nothing to be done. -/
inductive Refusal where
  | help
  | version
  | misuse
deriving Repr, DecidableEq

/-- A natural number below 2^64 with an optional plus sign. -/
def seconds? (value : String) : Option Nat :=
  let digits := match value.toList with
    | '+' :: cs => cs
    | cs => cs
  if digits ≠ [] && digits.all Char.isDigit then
    let n := digits.foldl (fun n c => n * 10 + (c.toNat - '0'.toNat)) 0
    if n < Nat.pow 2 64 then some n else none
  else none

def Switch.accepts (s : Switch) (value : String) : Bool :=
  match s with
  | .config | .shellcheck => value != ""
  | .timeout => (seconds? value).isSome
  | .format => (Format.ofName? value).isSome
  | _ => true

/-- What has been read at one level. -/
structure Scan where
  /-- Options with their values, empty for those that take none. -/
  given : List (Switch × String) := []
  /-- An option whose value, if it is there, has not been looked at. -/
  pending : Option (Switch × Option String) := none
  files : List String := []
  ended : Bool := false
deriving Repr, DecidableEq

namespace Scan

/-- Take an option.  Only the one for verbosity may come again. -/
def take (s : Scan) (o : Switch) (value : String) : Except Refusal Scan :=
  if !o.accepts value then .error .misuse
  else if o != .verbose && s.given.any (·.1 == o) then .error .misuse
  else .ok { s with given := s.given ++ [(o, value)] }

/-- Look at what is pending. -/
def settle (s : Scan) : Except Refusal Scan :=
  if s.files.any (· == "") then .error .misuse
  else
    match s.pending with
    | none => .ok s
    | some (_, none) => .error .misuse
    | some (o, some value) => { s with pending := none }.take o value

/-- An option is waiting for its value. -/
def awaits (s : Scan) : Bool :=
  match s.pending with
  | some (_, none) => true
  | _ => false

def meetFlag (s : Scan) (o : Switch) : Except Refusal Scan :=
  s.settle.bind fun s =>
    match o with
    | .help => .error .help
    | .version => .error .version
    | o => s.take o ""

/-- Meet an option that takes a value, which may stand in the same argument. -/
def meetOption (s : Scan) (o : Switch) (value : Option String) : Except Refusal Scan :=
  s.settle.bind fun s =>
    match value with
    | some v => s.take o v
    | none => .ok { s with pending := some (o, none) }

/-- Meet an argument behind two dashes. -/
def meetLong (s : Scan) (l : Level) (cs : List Char) : Except Refusal Scan :=
  let name := cs.takeWhile (· != '=')
  let value := match cs.drop name.length with
    | _ :: v => some (String.ofList v)
    | [] => none
  match Switch.ofLongName? l (String.ofList name) with
  | none => .error .misuse
  | some o =>
    if o.takesValue then s.meetOption o value
    else if value.isSome then .error .misuse
    else s.meetFlag o

/-- Meet the letters behind a single dash. -/
def meetShort (s : Scan) (l : Level) : List Char → Except Refusal Scan
  | [] => .ok s
  | c :: cs =>
    match Switch.ofShortName? l c with
    | none => .error .misuse
    | some o =>
      if o.takesValue then
        s.meetOption o (match cs with
          | [] => none
          | '=' :: v => some (String.ofList v)
          | v => some (String.ofList v))
      else (s.meetFlag o).bind (·.meetShort l cs)

/-- Meet an argument that is neither an option nor a command. -/
def meetWord (s : Scan) (l : Level) (arg : String) : Except Refusal Scan :=
  match s.pending with
  | some (o, none) =>
    if s.ended then .error .misuse else .ok { s with pending := some (o, some arg) }
  | _ =>
    if l = some .check then s.settle.map fun s => { s with files := s.files ++ [arg] }
    else .error .misuse

/-- Help is asked for by name, for this program or for one of its commands. -/
def helpOn : List String → Refusal
  | [] => .help
  | [name] => if (Command.ofName? name).isSome || name = "help" then .help else .misuse
  | _ => .misuse

/-- Read the arguments of a level, up to a command if one may follow: the command
and what stands behind it. -/
def read (l : Level) :
    Scan → List String → Except Refusal (Scan × Option (Command × List String))
  | s, [] => .ok (s, none)
  | s, arg :: args =>
    if s.ended then (s.meetWord l arg).bind (read l · args)
    else
      match if l = none && !s.awaits then Command.ofName? arg else none with
      | some c => .ok (s, some (c, args))
      | none =>
        if l = none && !s.awaits && arg = "help" then .error (helpOn args)
        else
          match arg.toList with
          | ['-', '-'] => read l { s with ended := true } args
          | '-' :: '-' :: cs => (s.meetLong l cs).bind (read l · args)
          | '-' :: c :: cs => (s.meetShort l (c :: cs)).bind (read l · args)
          | _ => (s.meetWord l arg).bind (read l · args)

def value? (s : Scan) (o : Switch) : Option String :=
  (s.given.find? (·.1 == o)).map (·.2)

def has (s : Scan) (o : Switch) : Bool :=
  s.given.any (·.1 == o)

end Scan

structure GlobalOptions where
  config : Option Path := none
  shellcheck : Option Path := none
  wholeLine : Bool := false
  errorsAsWarnings : Bool := false
  timeoutSecs : Option Nat := none
  verbose : Nat := 0
deriving Repr, DecidableEq

/-- The options of two levels.  Behind the command they count more. -/
def globalOptions (front back : Scan) : GlobalOptions :=
  let value (o : Switch) : Option String := (back.value? o).or (front.value? o)
  let has (o : Switch) : Bool := back.has o || front.has o
  let count (s : Scan) : Nat := s.given.countP (·.1 == .verbose)
  { config := (value .config).map Path.mk
    shellcheck := (value .shellcheck).map Path.mk
    wholeLine := has .wholeLine
    errorsAsWarnings := has .errorsAsWarnings
    timeoutSecs := (value .timeout).bind seconds?
    verbose := if count back = 0 then count front else count back }

inductive Task where
  | check (files : List Path) (format : Format) (allFiles : Bool)
  | version
  | find
deriving Repr, DecidableEq

structure Request where
  options : GlobalOptions
  task : Task
deriving Repr, DecidableEq

/-- The task of a command whose arguments have been read.  A check needs files. -/
def taskOf (c : Command) (s : Scan) : Except Refusal Task :=
  match c with
  | .check =>
    if s.files = [] then .error .misuse
    else
      let format := ((s.value? .format).bind Format.ofName?).getD .human
      .ok (.check (s.files.map Path.mk) format (s.has .allFiles))
  | .version => .ok .version
  | .find => .ok .find

def Request.ofArguments (args : List String) : Except Refusal Request := do
  let (front, command) ← Scan.read none {} args
  match command with
  | none => .error .misuse
  | some (c, args) =>
    let (back, _) ← Scan.read (some c) {} args
    let back ← back.settle
    let task ← taskOf c back
    let front ← front.settle
    return { options := globalOptions front back, task }

end Lintmark.CommandLine
