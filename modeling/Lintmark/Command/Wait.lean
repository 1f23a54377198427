/-
Waiting for a child with a deadline.  The child is asked again and again
whether it has ended, with short sleeps in between; a log keeps every question
and every sleep.  Times are nanoseconds on a clock that never goes back.
-/
import Lintmark.Command

namespace Lintmark

inductive Poll where
  | running
  /-- The child has ended and is waited for: its exit code, or none after a
  signal. -/
  | ended (exit : Option Int)
  | failed (cause : SystemError)
deriving Repr, DecidableEq

inductive Event where
  | polled (now : Nat) (answer : Poll)
  | slept (now : Nat) (length : Nat)
  | killed
  | reaped
deriving Repr, DecidableEq

/-- Ten milliseconds: the longest sleep, and the least time given to a reader. -/
def pollInterval : Nat := 10000000

inductive Waited where
  | ended (exit : Option Int)
  | expired
  | failed (cause : SystemError)
deriving Repr, DecidableEq

structure Wait where
  log : List Event
  result : Waited
  time : Nat
deriving Repr, DecidableEq

/-- How long to sleep before the next question: never past the deadline. -/
def sleepLength (deadline now : Nat) : Nat :=
  min pollInterval (deadline - now)

theorem sleepLength_pos {deadline now : Nat} (h : now < deadline) :
    0 < sleepLength deadline now := by
  have hp : 0 < pollInterval := by decide
  have hd : 0 < deadline - now := Nat.sub_pos_of_lt h
  exact Nat.lt_min.2 ⟨hp, hd⟩

/-- Wait for a child until a deadline, from the `k`th question on.  `poll k t`
answers question `k` at time `t`, and sleep `k` lasts `lag k` longer than asked.
The child is asked before the clock is looked at, so it is asked at least once. -/
def waitUntil (poll : Nat → Nat → Poll) (lag : Nat → Nat) (deadline : Nat)
    (k : Nat) (now : Nat) : Wait :=
  match poll k now with
  | .ended exit => ⟨[.polled now (.ended exit)], .ended exit, now⟩
  | .failed cause => ⟨[.polled now (.failed cause)], .failed cause, now⟩
  | .running =>
    if deadline ≤ now then ⟨[.polled now .running], .expired, now⟩
    else
      let later := waitUntil poll lag deadline (k + 1) (now + sleepLength deadline now + lag k)
      { later with
        log := .polled now .running :: .slept now (sleepLength deadline now) :: later.log }
termination_by deadline - now
decreasing_by
  have := sleepLength_pos (show now < deadline by omega)
  omega

end Lintmark
