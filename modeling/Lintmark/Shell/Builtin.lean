/-
Commands that the shell carries out itself.
-/
import Lintmark.Shell.Session

namespace Lintmark.Shell

def compare? (op : String) (a b : Int) : Option Bool :=
  match op with
  | "-eq" => some (a == b)
  | "-ne" => some (a != b)
  | "-lt" => some (a < b)
  | "-le" => some (a ≤ b)
  | "-gt" => some (a > b)
  | "-ge" => some (a ≥ b)
  | _ => none

/-- What stands at a path, for a test of one letter. -/
def testPath (h : Host) (s : Session) (op : String) (path : Bytes) : Option Bool :=
  let found := h.files.resolve s.dir ⟨toText path⟩
  let holds (p : Entry → Bool) : Bool :=
    match found with
    | .ok (_, e) => p e
    | .error _ => false
  match op with
  | "-e" => some (holds fun _ => true)
  | "-r" => some (holds fun _ => true)
  | "-w" => some (holds fun _ => true)
  | "-f" => some (holds fun | .file _ _ => true | _ => false)
  | "-d" => some (holds fun | .directory => true | _ => false)
  | "-s" => some (holds fun | .file _ content => content != [] | _ => false)
  | "-x" => some (holds fun
    | .directory => true
    | .file mode _ => FileTree.executeBit mode
    | .device _ => false)
  | _ => none

/-- The truth of a test of one word. -/
def testWord (h : Host) (s : Session) (op : String) (a : Bytes) : Option Bool :=
  match op with
  | "!" => some (a == [])
  | "-n" => some (a != [])
  | "-z" => some (a == [])
  | op => testPath h s op a

/-- The truth of a test; none if it cannot be read. -/
def testWords (h : Host) (s : Session) : List Bytes → Option Bool
  | [] => some false
  | [a] => some (a != [])
  | [op, a] => testWord h s (String.ofList op) a
  | [a, op, b] =>
    match String.ofList op with
    | "=" => some (a == b)
    | "!=" => some (a != b)
    | op =>
      if a = ['!'] then (testWord h s op b).map (!·)
      else
        match integer? a, integer? b with
        | some x, some y => compare? op x y
        | _, _ => none
  | ['!'] :: ws => (testWords h s ws).map (!·)
  | _ => none

def signals : List (String × Nat) :=
  [("HUP", 1), ("INT", 2), ("QUIT", 3), ("ABRT", 6), ("KILL", 9), ("USR1", 10), ("SEGV", 11),
    ("USR2", 12), ("PIPE", 13), ("ALRM", 14), ("TERM", 15)]

def signal? (cs : Bytes) : Option Nat :=
  match natural? cs with
  | some n => some n
  | none =>
    let name := String.ofList cs
    (signals.find? fun (s, _) => s == name || "SIG" ++ s == name).map (·.2)

/-- The signal and the processes of a `kill`. -/
def killWords : List Bytes → Nat × List Bytes
  | ['-', 's'] :: name :: ws => ((signal? name).getD 0, ws)
  | ('-' :: name) :: ws => ((signal? name).getD 0, ws)
  | ws => (15, ws)

/-- Send a signal.  Only one that the shell sends itself has an effect. -/
def kill (s : Session) (args : List Bytes) : Session :=
  let (signal, pids) := killWords args
  if signal > 0 && pids.contains (decimal s.pid) then { s with finish := some (.signalled signal) }
  else { s with status := 0 }

/-- Assignments among the words of an `export`. -/
def declare (s : Session) (args : List Bytes) : Session :=
  args.foldl (fun s w =>
    let name := w.takeWhile (· != '=')
    match w.drop name.length with
    | _ :: value => s.set name value
    | [] => s) { s with status := 0 }

/-- Read a line of the input into the last of some variables. -/
def readLine (s : Session) (names : List Bytes) : Session :=
  let all := s.input.all
  let line := all.takeWhile (· != '\n')
  let rest := (all.drop line.length).drop 1
  let ended := line.length < all.length
  let now := if ended then some s.now else later s.now s.input.eof
  let time := (s.input.chunks.getLast?.map (·.1)).getD s.now
  let s := { s with input := { s.input with chunks := if rest = [] then [] else [(time, rest)] }
                    status := if ended then 0 else 1 }
  let s := match names.getLast? with
    | some name => s.set name (Host.trimLine line)
    | none => s
  match now with
  | some t => { s with now := if ended then max t time else t }
  | none => { s with finish := some .never }

/-- Carry out a command of the shell that starts nothing; none if there is none
of this name. -/
def builtin? (h : Host) (line : Nat) (name : String) (args : List Bytes) (s : Session) :
    Option Session :=
  let fine : Session := { s with status := 0 }
  match name with
  | ":" => some fine
  | "true" => some fine
  | "false" => some { s with status := 1 }
  | "echo" => some (s.perform (echo true (s.place h) args))
  | "printf" => some (s.perform (printf (s.place h) args))
  | "pwd" => some (s.perform (Tool.pwd.run (s.place h) args))
  | "exit" =>
    match args with
    | [] => some { s with finish := some (.exited s.status) }
    | n :: _ =>
      match natural? n with
      | some status => some { s with finish := some (.exited (status % 256)) }
      | none =>
        some { s.complain line 2 (ofText "exit: Illegal number: " ++ n) with
          finish := some (.exited 2) }
  | "cd" =>
    match args.head? with
    | none => some fine
    | some dir =>
      match h.enter s.dir ⟨toText dir⟩ with
      | .ok location => some { fine with dir := location }
      | .error _ => some (s.complain line 2 (ofText "cd: can't cd to " ++ dir))
  | "kill" => some (kill s args)
  | "wait" =>
    match latest (some s.now) s.jobs with
    | some t => some { fine with now := t, jobs := [] }
    | none => some { s with finish := some .never }
  | "test" =>
    some { s with status := match testWords h s args with
      | some b => if b then 0 else 1
      | none => 2 }
  | "[" =>
    some { s with status := match testWords h s args.dropLast with
      | some b => if b then 0 else 1
      | none => 2 }
  | "export" => some (declare s args)
  | "readonly" => some (declare s args)
  | "shift" =>
    some { fine with params := s.params.drop ((args.head?.bind natural?).getD 1) }
  | "set" =>
    match args with
    | ['-', '-'] :: args => some { fine with params := args }
    | ('-' :: flags) :: _ => some { fine with strict := s.strict || flags.contains 'e' }
    | ('+' :: flags) :: _ => some { fine with strict := s.strict && !flags.contains 'e' }
    | _ => some fine
  | "read" => some (readLine s args)
  | "trap" => some fine
  | "unset" => some { fine with vars := s.vars.filter fun (name, _) => !args.contains name }
  | "umask" => some fine
  | "ulimit" => some fine
  | _ => none

end Lintmark.Shell
