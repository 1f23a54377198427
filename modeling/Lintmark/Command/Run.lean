/-
Running a command to its end.  Threads of their own feed the child and drain
its two outputs while the caller waits for it, then for the outputs, and last
for the thread that feeds it.
-/
import Lintmark.Command.Wait
import Lintmark.Text.Utf8

namespace Lintmark

inductive Stream where
  | stdout
  | stderr
deriving Repr, DecidableEq

/-- When a thread reports, and what. -/
inductive Fate (α : Type) where
  | reports (time : Nat) (result : α)
  | breaks (time : Nat)
  | never
deriving Repr

/-- A reader: the output that it drains, and its fate. -/
structure Reader where
  stream : Stream
  fate : Fate (Except SystemError (List UInt8))

/-- What a command meets when it is run. -/
structure Surroundings where
  start : Nat
  spawn : Except SystemError Unit
  /-- Both outputs of the child can be had. -/
  hasPipes : Bool
  /-- Answers to the question whether the child has ended, by number and time. -/
  poll : Nat → Nat → Poll
  lag : Nat → Nat
  /-- The readers, in the order in which they report at the same time. -/
  readers : List Reader
  writer : Fate (Except SystemError Unit)

inductive Received where
  | report (time : Nat) (reader : Stream) (result : Except SystemError (List UInt8))
  /-- No reader is left that could report. -/
  | disconnected (time : Nat)
  | timedOut (time : Nat)

def Reader.reportTime? (r : Reader) : Option Nat :=
  match r.fate with
  | .reports t _ => some t
  | _ => none

def Reader.breakTime? (r : Reader) : Option Nat :=
  match r.fate with
  | .breaks t => some t
  | _ => none

def firstToReport? : List Reader → Option Reader
  | [] => none
  | r :: rs =>
    match r.reportTime?, firstToReport? rs with
    | none, next => next
    | some _, none => some r
    | some t, some next => if next.reportTime?.any (· < t) then some next else some r

/-- Wait for a report, from now on and for at most so long. -/
def receive (readers : List Reader) (now limit : Nat) : Received :=
  match firstToReport? readers with
  | some ⟨stream, .reports t result⟩ =>
    if t ≤ now + limit then .report (max now t) stream result else .timedOut (now + limit)
  | _ =>
    match readers.mapM Reader.breakTime? with
    | some times =>
      let last := times.foldl max now
      if last ≤ now + limit then .disconnected last else .timedOut (now + limit)
    | none => .timedOut (now + limit)

inductive Collected where
  | outputs (time : Nat) (stdout stderr : List UInt8)
  | failed (time : Nat) (cause : SystemError)
  | expired (time : Nat)
deriving Repr, DecidableEq

/-- Collect `count` reports, keeping what came so far.  Each may take until the
deadline, and a poll interval at least. -/
def collect (deadline : Nat) : Nat → List Reader → Nat → List UInt8 → List UInt8 → Collected
  | 0, _, now, out, err => .outputs now out err
  | count + 1, readers, now, out, err =>
    match receive readers now (max (deadline - now) pollInterval) with
    | .timedOut t => .expired t
    | .disconnected t => .failed t (.other "Output reader thread stopped")
    | .report t _ (.error cause) => .failed t cause
    | .report t stream (.ok bytes) =>
      let left := readers.filter (·.stream != stream)
      match stream with
      | .stdout => collect deadline count left t bytes err
      | .stderr => collect deadline count left t out bytes

/-- What a run comes to. -/
inductive Ending where
  | returned (time : Nat) (result : Except CommandError CommandOutput)
  | stuck
  /-- The deadline lies past the end of the clock, and the caller breaks down. -/
  | crashed

/-- What comes of a run for its caller. -/
def Ending.attempt : Ending → Attempt (Except CommandError CommandOutput)
  | returned _ result => .ends result
  | stuck => .never
  | crashed => .breaks

structure Run where
  log : List Event
  ending : Ending

/-- The clock counts seconds in 63 bits. -/
def clockEnd : Nat := Nat.pow 2 63 * 1000000000

/-- The deadline of a run, if the clock reaches that far. -/
def deadline? (start : Nat) (timeout : Duration) : Option Nat :=
  if start + timeout.nanos < clockEnd then some (start + timeout.nanos) else none

/-- Wait for the thread that feeds the child, however long it takes.  A child
may end without reading everything. -/
def joinWriter (fate : Fate (Except SystemError Unit)) (now : Nat) (output : CommandOutput) :
    Ending :=
  match fate with
  | .reports t (.ok ()) => .returned (max now t) (.ok output)
  | .reports t (.error cause) =>
    if cause.isBrokenPipe then .returned (max now t) (.ok output)
    else .returned (max now t) (.error (.io cause))
  | .breaks t => .returned (max now t) (.error (.io (.other "Stdin writer thread panicked")))
  | .never => .stuck

namespace Command

/-- The run of a child that has ended by itself: its outputs are collected, and
the thread that feeds it is waited for. -/
def finish (c : Command) (s : Surroundings) (deadline now : Nat) (exit : Option Int) : Ending :=
  match collect deadline 2 s.readers now [] [] with
  | .expired t => .returned t (.error (.timeout c.line c.timeout))
  | .failed t cause => .returned t (.error (.io cause))
  | .outputs t out err =>
    let output : CommandOutput :=
      { stdout := String.ofList (Text.Utf8.decodeLossy out)
        stderr := String.ofList (Text.Utf8.decodeLossy err)
        exit := exit }
    if c.input.isSome then joinWriter s.writer t output else .returned t (.ok output)

/-- Run a command.  A child that is still running at the deadline, or that
cannot be asked, is killed and waited for. -/
def run (c : Command) (s : Surroundings) : Run :=
  match deadline? s.start c.timeout with
  | none => ⟨[], .crashed⟩
  | some deadline =>
    match s.spawn with
    | .error cause => ⟨[], .returned s.start (.error (.spawn c.line c.executable cause))⟩
    | .ok () =>
      if !s.hasPipes then
        ⟨[.killed, .reaped],
          .returned s.start (.error (.io (.other "Failed to capture process output")))⟩
      else
        let w := waitUntil s.poll s.lag deadline 0 s.start
        match w.result with
        | .expired =>
          ⟨w.log ++ [.killed, .reaped], .returned w.time (.error (.timeout c.line c.timeout))⟩
        | .failed cause => ⟨w.log ++ [.killed, .reaped], .returned w.time (.error (.io cause))⟩
        | .ended exit => ⟨w.log, c.finish s deadline w.time exit⟩

end Command

/-- Run every command in surroundings of its own. -/
def Runner.within (around : Command → Surroundings) : Runner := fun c =>
  (c.run (around c)).ending.attempt

end Lintmark
