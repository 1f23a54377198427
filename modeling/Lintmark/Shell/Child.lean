/-
The life of a child that a command starts on a machine: when it ends, what it
writes, and how long its outputs stay open.
-/
import Lintmark.Command.Run
import Lintmark.Shell.Evaluation

namespace Lintmark.Shell

/-- The number of steps that a script may take. -/
def stepLimit : Nat := 10000

/-- The number of bytes that a pipe takes before anybody reads. -/
def pipeSize : Nat := 65536

/-- The session of a program at its start: nothing written, and both outputs on
channels of their own. -/
def Session.begin (now : Nat) (dir : Location) (input : Input) : Session where
  now := now
  dir := dir
  input := input
  out := 0
  err := 1
  pid := 1000
  fresh := inputChannel + 1

namespace Host

/-- The bytes of a text have a zero among them. -/
def hasZero (s : String) : Bool :=
  s.toList.contains '\x00'

/-- Text given to a new process holds a zero byte. -/
def zeroByte : SystemError := .other "nul byte found in provided data"

/-- Start a command from a directory: the program, its arguments and the
directory it runs in. -/
def spawn (h : Host) (dir : Location) (c : Command) :
    Except SystemError (Tool × List Bytes × Location) :=
  if hasZero c.executable.text || c.args.any hasZero || c.workingDir.any (hasZero ·.text) then
    .error zeroByte
  else
    (match c.workingDir with
      | some p => h.enter dir p
      | none => .ok dir).bind fun dir =>
        (h.start dir c.executable).map fun (tool, before) =>
          (tool, before ++ c.args.map ofText, dir)

/-- The input of a command's child.  All of it is there from the start. -/
def inputOf (c : Command) (start : Nat) : Input :=
  ⟨match c.input with
    | some text => if text = "" then [] else [(start, ofText text)]
    | none => [], some start⟩

def life (h : Host) (c : Command) (start : Nat) (tool : Tool) (args : List Bytes)
    (dir : Location) : Session :=
  program h stepLimit (ofText c.executable.text) tool args (.begin start dir (inputOf c start))

end Host

namespace Session

def exit? (s : Session) : Option Int :=
  match s.ending with
  | .exited n => some n
  | _ => none

def poll (s : Session) (now : Nat) : Poll :=
  match s.stop? with
  | some t => if t ≤ now then .ended s.exit? else .running
  | none => .running

/-- The thread that drains a channel reports when nobody can write there any
more. -/
def drained (s : Session) (channel : Nat) : Fate (Except SystemError (List UInt8)) :=
  match s.closed? channel with
  | some t => .reports t (.ok (toBytes ((s.chunks channel).flatMap (·.2))))
  | none => .never

/-- The thread that feeds the child is done at once if the pipe takes the whole
input, and otherwise when nobody holds the other end any more. -/
def fed (s : Session) (start size : Nat) : Fate (Except SystemError Unit) :=
  if size ≤ pipeSize then .reports start (.ok ())
  else
    match s.closed? inputChannel with
    | some t =>
      .reports t (if s.input.all.length ≤ pipeSize then .ok () else .error .brokenPipe)
    | none => .never

end Session

namespace Host

/-- A moment on the clock of a machine, which counts from its own start. -/
def clockNow : Nat := 1000 * 1000000000

/-- What a command meets on a machine, run from a directory. -/
def surroundings (h : Host) (dir : Location) (c : Command) : Surroundings :=
  let start := clockNow
  let spawned := h.spawn dir c
  let child : Session := match spawned with
    | .ok (tool, args, dir) => h.life c start tool args dir
    | .error _ => .begin start dir ⟨[], some start⟩
  { start := start
    spawn := spawned.map fun _ => ()
    hasPipes := true
    poll := fun _ now => child.poll now
    lag := fun _ => 0
    readers := [⟨.stdout, child.drained 0⟩, ⟨.stderr, child.drained 1⟩]
    writer := child.fed start (ofText (c.input.getD "")).length }

def run (h : Host) (dir : Location) : Runner :=
  .within (h.surroundings dir)

end Host

end Lintmark.Shell
