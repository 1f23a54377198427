/-
The state of a shell while it runs a script.  Output goes to numbered channels;
what is written there is kept with its time, and so is who holds a channel open
for how long.
-/
import Lintmark.Shell.Host
import Lintmark.Shell.Script

namespace Lintmark.Shell

/-- How a program ends. -/
inductive Finish where
  | exited (status : Nat)
  | signalled (signal : Nat)
  | never
deriving Repr, DecidableEq

/-- Bytes on a channel. -/
structure Written where
  time : Nat
  channel : Nat
  bytes : Bytes
deriving Repr, DecidableEq

/-- The state of a shell. -/
structure Session where
  now : Nat
  dir : Location
  input : Input
  /-- The input is open under another number as well, which jobs inherit. -/
  keepsInput : Bool := false
  /-- Channels of the output and the error output. -/
  out : Nat
  err : Nat
  pid : Nat
  name : Bytes := []
  params : List Bytes := []
  vars : List (Bytes × Bytes) := []
  status : Nat := 0
  /-- A command that fails ends the shell, unless its failure is asked for. -/
  strict : Bool := false
  guarded : Bool := false
  finish : Option Finish := none
  /-- What was written, the latest first. -/
  written : List Written := []
  /-- Channels held by background jobs, and until when. -/
  holds : List (Nat × Option Nat) := []
  jobs : List (Option Nat) := []
  /-- The next channel without a user. -/
  fresh : Nat

/-- The channel that keeps nothing. -/
def nullChannel : Nat := 2

/-- The channel from which a command is fed. -/
def inputChannel : Nat := 3

/-- The latest of some times, any of which may never come. -/
def latest (start : Option Nat) (times : List (Option Nat)) : Option Nat :=
  times.foldl (fun a b => a.bind fun a => b.map (max a)) start

namespace Session

def writeAt (s : Session) (time channel : Nat) (bytes : Bytes) : Session :=
  if bytes = [] || channel == nullChannel then s
  else { s with written := ⟨time, channel, bytes⟩ :: s.written }

def isDone (s : Session) : Bool :=
  s.finish.isSome

/-- How the shell ends if it ends here. -/
def ending (s : Session) : Finish :=
  s.finish.getD (.exited s.status)

/-- End a strict shell behind a command that failed. -/
def checked (s : Session) : Session :=
  if s.strict && !s.guarded && !s.isDone && s.status != 0 then
    { s with finish := some (.exited s.status) }
  else s

/-- When the shell ends if it ends here. -/
def stop? (s : Session) : Option Nat :=
  if s.finish = some .never then none else some s.now

/-- What was written to a channel, in order. -/
def chunks (s : Session) (channel : Nat) : List (Nat × Bytes) :=
  ((s.written.filter (·.channel == channel)).reverse.map fun w => (w.time, w.bytes)).mergeSort
    fun a b => a.1 ≤ b.1

/-- When nobody holds a channel any more, if the shell is one of its holders. -/
def closed? (s : Session) (channel : Nat) : Option Nat :=
  latest s.stop? ((s.holds.filter (·.1 == channel)).map (·.2))

/-- A copy of the shell in a process of its own. -/
def fork (s : Session) : Session :=
  { s with jobs := [] }

/-- Take over the traces that another process leaves. -/
def adopt (s child : Session) : Session :=
  { s with written := child.written, holds := child.holds, fresh := child.fresh }

/-- The wording for a process that a signal ended. -/
def signalText : Nat → String
  | 1 => "Hangup"
  | 6 => "Aborted"
  | 9 => "Killed"
  | 11 => "Segmentation fault"
  | 14 => "Alarm clock"
  | 15 => "Terminated"
  | n => "Signal " ++ toString n

/-- Go on behind a process that has been waited for. -/
def await (s child : Session) : Session :=
  let s := { s.adopt child with input := child.input, now := child.now }
  match child.ending with
  | .exited n => { s with status := n }
  | .signalled n =>
    { s.writeAt s.now s.err (ofText (signalText n) ++ ['\n']) with status := 128 + n }
  | .never => { s with finish := some .never }

/-- Go on behind a copy of the shell.  A signal that the copy sends by number
reaches the shell itself. -/
def awaitCopy (s child : Session) : Session :=
  match child.ending with
  | .signalled n => { s.adopt child with now := child.now, finish := some (.signalled n) }
  | _ => s.await child

/-- The surroundings of a program that the shell starts. -/
def place (s : Session) (h : Host) : Place :=
  { files := h.files, dir := s.dir, now := s.now, input := s.input }

/-- What a program does, done. -/
def perform (s : Session) (e : Effect) : Session :=
  let s := e.out.foldl (fun s (t, b) => s.writeAt t s.out b) s
  let s := e.err.foldl (fun s (t, b) => s.writeAt t s.err b) s
  let s := { s with input := e.left, status := e.status }
  match e.stop with
  | some t => { s with now := t }
  | none => { s with finish := some .never }

/-- A complaint of the shell about a line of its script. -/
def complain (s : Session) (line status : Nat) (text : Bytes) : Session :=
  let place := s.name ++ ofText ": " ++ decimal line ++ ofText ": "
  { s.writeAt s.now s.err (place ++ text ++ ['\n']) with status := status }

def set (s : Session) (name value : Bytes) : Session :=
  { s with vars := (name, value) :: s.vars.filter (·.1 != name) }

/-- The value of a parameter or variable, if it is set. -/
def value? (s : Session) (name : Bytes) : Option Bytes :=
  match name with
  | ['*'] => some (spaced s.params)
  | ['@'] => some (spaced s.params)
  | ['#'] => some (decimal s.params.length)
  | ['?'] => some (decimal s.status)
  | ['$'] => some (decimal s.pid)
  | ['0'] => some s.name
  | ['P', 'W', 'D'] => some (ofText (FileTree.pathOf s.dir).text)
  | name =>
    match natural? name with
    | some n => s.params[n - 1]?
    | none => (s.vars.find? (·.1 == name)).map (·.2)

/-- The text for a parameter: its value, its length, or something in its place. -/
def textOf (s : Session) (name : Bytes) : Bytes :=
  match name with
  | '#' :: c :: cs => decimal ((s.value? (c :: cs)).getD []).length
  | name =>
    let base := name.takeWhile isNameChar
    match name.drop base.length with
    | ':' :: '-' :: word =>
      let value := (s.value? base).getD []
      if value = [] then word else value
    | '-' :: word => (s.value? base).getD word
    | _ => (s.value? name).getD []

end Session

/-- A redirection with its path. -/
inductive Target where
  | write (fd : Nat) (path : Bytes)
  | read (path : Bytes)
  | copy (fd : Nat) (source : Bytes)
deriving Repr, DecidableEq

namespace Session

def writable (s : Session) (h : Host) (path : Bytes) : Except Bytes Unit :=
  let p : Path := ⟨toText path⟩
  let refuse (why : String) : Except Bytes Unit :=
    .error (ofText "cannot create " ++ path ++ ofText ": " ++ ofText why)
  match h.files.resolve s.dir p with
  | .ok (_, .directory) => refuse "Is a directory"
  | .ok _ => .ok ()
  | .error _ =>
    let parent := (Path.pieces p.text.toList).dropLast
    let start := if p.isAbsolute then [] else s.dir
    match h.files.follow start parent with
    | .ok location =>
      if h.files.at? location = some .directory && p.text ≠ "" then .ok ()
      else refuse "Directory nonexistent"
    | .error _ => refuse "Directory nonexistent"

/-- Let an output go to a channel. -/
def point (s : Session) (fd channel : Nat) : Session :=
  match fd with
  | 1 => { s with out := channel }
  | 2 => { s with err := channel }
  | _ => s

/-- Redirect an input or output.  What goes to a file is not kept. -/
def redirectOne (s : Session) (h : Host) : Target → Except Bytes Session
  | .write fd path => (s.writable h path).map fun _ => s.point fd nullChannel
  | .read path =>
    match (s.place h).read path with
    | .ends (.ok bytes) =>
      .ok { s with input := ⟨if bytes = [] then [] else [(s.now, bytes)], some s.now⟩ }
    | .ends (.error _) => .error (ofText "cannot open " ++ path ++ ofText ": No such file")
    | _ => .ok { s with input := ⟨[], none⟩ }
  | .copy fd source =>
    match natural? source with
    | some 0 => .ok { s.point fd nullChannel with keepsInput := s.keepsInput || fd > 2 }
    | some 1 => .ok (s.point fd s.out)
    | some 2 => .ok (s.point fd s.err)
    | _ => .ok (s.point fd nullChannel)

/-- Redirect in order. -/
def redirect (s : Session) (h : Host) (ts : List Target) : Except Bytes Session :=
  ts.foldlM (fun s t => s.redirectOne h t) s

/-- Undo redirections behind a command.  What was read from the input of the
shell stays read. -/
def restore (s inner : Session) (ts : List Target) : Session :=
  let readsFile := ts.any fun
    | .read _ => true
    | _ => false
  { inner with out := s.out, err := s.err, input := if readsFile then s.input else inner.input }

end Session

/-- A word while it is expanded: fields that are complete, the latest first, and
the letters of the next one, the latest first. -/
structure Draft where
  fields : List Bytes := []
  current : Option Bytes := none
deriving Repr, DecidableEq

namespace Draft

def add (d : Draft) (cs : Bytes) : Draft :=
  { d with current := some (cs.reverse ++ d.current.getD []) }

/-- End the field, if one has begun. -/
def cut (d : Draft) : Draft :=
  match d.current with
  | some cs => ⟨cs.reverse :: d.fields, none⟩
  | none => d

/-- Add letters, ending the field at each blank. -/
def addSplit (d : Draft) (cs : Bytes) : Draft :=
  cs.foldl (fun d c => if c == ' ' || c == '\t' || c == '\n' then d.cut else d.add [c]) d

/-- Add fields, the first one to the field that has begun. -/
def addFields (d : Draft) : List Bytes → Draft
  | [] => d
  | f :: fs => fs.foldl (fun d f => d.cut.add f) (d.add f)

/-- Add letters, between quotes or not. -/
def put (d : Draft) (inQuotes : Bool) (cs : Bytes) : Draft :=
  if inQuotes then d.add cs else d.addSplit cs

def done (d : Draft) : List Bytes :=
  d.cut.fields.reverse

end Draft

/-- A character of a pattern; one that is not quoted may stand for others. -/
abbrev Pattern := List (Char × Bool)

/-- A text fits a pattern: a star stands for any characters and a question mark
for one. -/
def fitsPattern : Pattern → Bytes → Bool
  | [], cs => cs == []
  | ('*', true) :: ps, [] => fitsPattern ps []
  | ('*', true) :: ps, c :: cs => fitsPattern ps (c :: cs) || fitsPattern (('*', true) :: ps) cs
  | _ :: _, [] => false
  | (p, special) :: ps, c :: cs => ((special && p == '?') || p == c) && fitsPattern ps cs
termination_by ps cs => ps.length + cs.length

end Lintmark.Shell
