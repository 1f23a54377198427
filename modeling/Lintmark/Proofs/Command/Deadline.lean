/-
Limits that the clock can hold.  A run breaks down for one reason only: its deadline
lies past the end of the clock.
-/
import Mathlib.Algebra.Group.Nat.Defs
import Lintmark.Proofs.Command.Collecting
import Lintmark.Proofs.Command.Waiting

namespace Lintmark

/-- The clock has a deadline for a limit of whole seconds exactly when these seconds and
those that have passed go into its 63 bits. -/
theorem deadline?_ofSecs_isSome_iff {start secs : Nat} :
    (deadline? start (.ofSecs secs)).isSome ↔ start / 1000000000 + secs < 2 ^ 63 := by
  have hclock : clockEnd = 2 ^ 63 * 1000000000 := rfl
  have hnanos : (Duration.ofSecs secs).nanos = secs * 1000000000 := rfl
  unfold deadline?
  split
  · refine iff_of_true rfl ?_
    omega
  · refine iff_of_false Bool.false_ne_true ?_
    omega

theorem Ending.attempt_eq_breaks_iff {ending : Ending} :
    ending.attempt = .breaks ↔ ending = .crashed := by
  cases ending <;> simp [attempt]

theorem Ending.attempt_eq_never_iff {ending : Ending} :
    ending.attempt = .never ↔ ending = .stuck := by
  cases ending <;> simp [attempt]

/-- A run that does not break down returns, or waits for ever for the thread that feeds the
child. -/
inductive Ending.Settled (feeding : Fate (Except SystemError Unit)) : Ending → Prop where
  | returned (t : Nat) (result : Except CommandError CommandOutput) :
      Settled feeding (.returned t result)
  | stuck (h : feeding = .never) : Settled feeding .stuck

/-- What a run of a command comes to once its child has started: an output, a failure of
the system, a missed deadline, or an endless wait for the thread that feeds the child. -/
inductive Ending.OfChild (c : Command) (feeding : Fate (Except SystemError Unit)) :
    Ending → Prop where
  | output (t : Nat) (output : CommandOutput) : OfChild c feeding (.returned t (.ok output))
  | failed (t : Nat) (cause : SystemError) :
      OfChild c feeding (.returned t (.error (.io cause)))
  | late (t : Nat) : OfChild c feeding (.returned t (.error (.timeout c.line c.timeout)))
  | stuck (h : feeding = .never) : OfChild c feeding .stuck

theorem Ending.OfChild.settled {c : Command} {feeding : Fate (Except SystemError Unit)}
    {ending : Ending} (h : ending.OfChild c feeding) : ending.Settled feeding := by
  cases h with
  | output t output => exact .returned t _
  | failed t cause => exact .returned t _
  | late t => exact .returned t _
  | stuck hnever => exact .stuck hnever

theorem joinWriter_ofChild (c : Command) (fate : Fate (Except SystemError Unit)) (now : Nat)
    (output : CommandOutput) : (joinWriter fate now output).OfChild c fate := by
  cases fate with
  | reports t result =>
      cases result with
      | ok => exact .output _ _
      | error cause =>
          rw [joinWriter]
          split
          · exact .output _ _
          · exact .failed _ _
  | breaks t => exact .failed _ _
  | never => exact .stuck rfl

namespace Command

variable {c : Command} {s : Surroundings} {deadline : Nat}

theorem finish_ofChild (now : Nat) (exit : Option Int) :
    (c.finish s deadline now exit).OfChild c s.writer := by
  cases hcollect : collect deadline 2 s.readers now [] [] with
  | outputs t out err =>
      rw [c.finish_of_outputs exit hcollect]
      split
      · exact joinWriter_ofChild c _ _ _
      · exact .output _ _
  | failed t cause =>
      rw [c.finish_of_failed exit hcollect]
      exact .failed _ _
  | expired t =>
      rw [c.finish_of_expired exit hcollect]
      exact .late _

theorem run_ofChild (hdeadline : deadline? s.start c.timeout = some deadline)
    (hspawn : s.spawn = .ok ()) : (c.run s).ending.OfChild c s.writer := by
  cases hpipes : s.hasPipes with
  | false =>
      simp only [run, hdeadline, hspawn, hpipes]
      exact .failed _ _
  | true =>
      rcases c.run_of_spawn s hdeadline hspawn hpipes with
        ⟨exit, -, -, hending⟩ | ⟨-, -, hending⟩ | ⟨cause, -, -, hending⟩
      · rw [hending]
        exact finish_ofChild _ exit
      · rw [hending]
        exact .late _
      · rw [hending]
        exact .failed _ _

theorem run_of_not_spawned (hdeadline : deadline? s.start c.timeout = some deadline)
    {cause : SystemError} (hspawn : s.spawn = .error cause) :
    (c.run s).ending = .returned s.start (.error (.spawn c.line c.executable cause)) := by
  simp only [run, hdeadline, hspawn]

theorem run_settled (hdeadline : deadline? s.start c.timeout = some deadline) :
    (c.run s).ending.Settled s.writer := by
  cases hspawn : s.spawn with
  | error cause =>
      rw [run_of_not_spawned hdeadline hspawn]
      exact .returned _ _
  | ok => exact (run_ofChild hdeadline hspawn).settled

/-- A run breaks down exactly when there is no deadline for it. -/
theorem run_crashed_iff :
    (c.run s).ending = .crashed ↔ deadline? s.start c.timeout = none := by
  cases hdeadline : deadline? s.start c.timeout with
  | none =>
      refine iff_of_true ?_ rfl
      rw [run, hdeadline]
  | some deadline =>
      refine iff_of_false ?_ (Option.some_ne_none deadline)
      intro hcrashed
      have hsettled := run_settled hdeadline
      rw [hcrashed] at hsettled
      cases hsettled

/-- Only a thread that never comes back is waited for in vain. -/
theorem run_ne_stuck (hwriter : s.writer ≠ .never) : (c.run s).ending ≠ .stuck := by
  intro hstuck
  cases hdeadline : deadline? s.start c.timeout with
  | none => cases (run_crashed_iff.mpr hdeadline).symm.trans hstuck
  | some deadline =>
      have hsettled := run_settled hdeadline
      rw [hstuck] at hsettled
      cases hsettled with
      | stuck hnever => exact hwriter hnever

/-- A command that is not waited for in vain has a result exactly when there is a deadline
for it. -/
theorem within_ends_iff {around : Command → Surroundings}
    (hends : (c.run (around c)).ending ≠ .stuck) :
    (Runner.within around c).Ends ↔ (deadline? (around c).start c.timeout).isSome := by
  rw [Attempt.ends_iff, Runner.within, Ne, Ne, Ending.attempt_eq_breaks_iff,
    Ending.attempt_eq_never_iff, and_iff_left hends, Option.isSome_iff_ne_none]
  exact not_congr run_crashed_iff

end Command

end Lintmark
