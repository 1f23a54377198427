/-
How waiting for a child ends.  The result is what the last question was
answered, and the clock is past the deadline only through sleeps that last
longer than asked.
-/
import Lintmark.Command.Run

namespace Lintmark

/-- The last answer before waiting ends. -/
def Waited.answer : Waited → Poll
  | ended exit => .ended exit
  | expired => .running
  | failed cause => .failed cause

theorem Waited.eq_ended_of_answer {w : Waited} {exit : Option Int}
    (h : w.answer = .ended exit) : w = .ended exit := by
  cases w with
  | ended exit' =>
      cases h
      rfl
  | expired => cases h
  | failed cause => cases h

theorem Waited.eq_expired_of_answer {w : Waited} (h : w.answer = .running) :
    w = .expired := by
  cases w with
  | ended exit => cases h
  | expired => rfl
  | failed cause => cases h

theorem Waited.eq_failed_of_answer {w : Waited} {cause : SystemError}
    (h : w.answer = .failed cause) : w = .failed cause := by
  cases w with
  | ended exit => cases h
  | expired => cases h
  | failed cause' =>
      cases h
      rfl

variable (poll : Nat → Nat → Poll) (lag : Nat → Nat) (deadline k now : Nat)

/-- The result is the answer to some question, asked when waiting ends. -/
theorem exists_poll_waitUntil :
    ∃ j, poll j (waitUntil poll lag deadline k now).time =
      (waitUntil poll lag deadline k now).result.answer := by
  fun_induction waitUntil poll lag deadline k now with
  | case1 k now exit hended => exact ⟨k, hended⟩
  | case2 k now cause hfailed => exact ⟨k, hfailed⟩
  | case3 k now hrunning _ => exact ⟨k, hrunning⟩
  | case4 k now _ _ later ih => exact ih

theorem deadline_le_waitUntil_time
    (h : (waitUntil poll lag deadline k now).result = .expired) :
    deadline ≤ (waitUntil poll lag deadline k now).time := by
  fun_induction waitUntil poll lag deadline k now with
  | case1 => cases h
  | case2 => cases h
  | case3 k now _ hexpired => exact hexpired
  | case4 k now _ _ later ih => exact ih h

/-- Sleeps that last as long as asked do not go past the deadline. -/
theorem waitUntil_time_le (hlag : ∀ k, lag k = 0) (hnow : now ≤ deadline) :
    (waitUntil poll lag deadline k now).time ≤ deadline := by
  fun_induction waitUntil poll lag deadline k now with
  | case1 => exact hnow
  | case2 => exact hnow
  | case3 => exact hnow
  | case4 k now _ hearly later ih =>
      apply ih
      have hsleep : sleepLength deadline now ≤ deadline - now :=
        Nat.min_le_right _ _
      rw [hlag k]
      omega

theorem deadline?_eq_some {start : Nat} {timeout : Duration} {deadline : Nat}
    (h : deadline? start timeout = some deadline) :
    deadline = start + timeout.nanos := by
  unfold deadline? at h
  split at h
  · exact (Option.some.inj h).symm
  · cases h

/-- A run whose child has started waits for it.  It goes on behind a child that has
ended, and kills any other one. -/
theorem Command.run_of_spawn (c : Command) (s : Surroundings) {deadline : Nat}
    (hdeadline : deadline? s.start c.timeout = some deadline)
    (hspawn : s.spawn = .ok ()) (hpipes : s.hasPipes = true) :
    let w := waitUntil s.poll s.lag deadline 0 s.start
    (∃ exit, w.result = .ended exit ∧ (c.run s).log = w.log ∧
        (c.run s).ending = c.finish s deadline w.time exit) ∨
      (w.result = .expired ∧ (c.run s).log = w.log ++ [.killed, .reaped] ∧
        (c.run s).ending = .returned w.time (.error (.timeout c.line c.timeout))) ∨
      ∃ cause, w.result = .failed cause ∧
        (c.run s).log = w.log ++ [.killed, .reaped] ∧
        (c.run s).ending = .returned w.time (.error (.io cause)) := by
  intro w
  have hw : waitUntil s.poll s.lag deadline 0 s.start = w := rfl
  simp only [Command.run, hdeadline, hspawn, hpipes, Bool.not_true,
    Bool.false_eq_true, if_false, hw]
  cases w.result with
  | ended exit => exact Or.inl ⟨exit, rfl, rfl, rfl⟩
  | expired => exact Or.inr (Or.inl ⟨rfl, rfl, rfl⟩)
  | failed cause => exact Or.inr (Or.inr ⟨cause, rfl, rfl, rfl⟩)

end Lintmark
