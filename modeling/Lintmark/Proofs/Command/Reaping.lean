/-
What a run does to the child that it has started.  No run returns without having
waited for its child, and a child is killed only if nobody has waited for it.
-/
import Lintmark.Proofs.Command.Collecting
import Lintmark.Proofs.Command.Waiting

namespace Lintmark

/-- What a run has done to its child so far. -/
inductive Child where
  /-- Nobody has waited for the child yet.  It may have ended. -/
  | started
  | ended (exit : Option Int)
  /-- The child is killed, and nobody has waited for it yet. -/
  | killed
  | reaped
deriving Repr, DecidableEq

namespace Child

/-- What an event makes of a child.  A child that is killed can only be waited for,
and nothing can be done to one that has been waited for. -/
def after : Child → Event → Option Child
  | started, .polled _ .running => some started
  | started, .polled _ (.failed _) => some started
  | started, .polled _ (.ended exit) => some (ended exit)
  | started, .slept _ _ => some started
  | started, .killed => some killed
  | killed, .reaped => some reaped
  | _, _ => none

def replay (child : Child) (log : List Event) : Option Child :=
  log.foldlM after child

/-- Nothing of the child is left behind. -/
def WaitedFor : Child → Prop
  | started => False
  | ended _ => True
  | killed => False
  | reaped => True

def WasKilled : Child → Prop
  | started => False
  | ended _ => False
  | killed => True
  | reaped => True

variable {child child' : Child} {e : Event} {log : List Event}

theorem replay_cons (h : child.after e = some child') :
    child.replay (e :: log) = child'.replay log := by
  rw [replay, List.foldlM_cons, h]
  rfl

theorem replay_append {log' : List Event} (h : child.replay log = some child') :
    child.replay (log ++ log') = child'.replay log' := by
  rw [replay] at h
  rw [replay, List.foldlM_append, h]
  rfl

theorem wasKilled_after (h : child.after e = some child') :
    child'.WasKilled ↔ child.WasKilled ∨ .killed = e := by
  unfold after at h
  split at h <;> cases h <;> simp [WasKilled]

/-- A child remembers whether it was killed. -/
theorem wasKilled_replay (h : child.replay log = some child') :
    child'.WasKilled ↔ child.WasKilled ∨ .killed ∈ log := by
  induction log generalizing child with
  | nil =>
      cases h
      simp
  | cons e log ih =>
      rw [replay, List.foldlM_cons] at h
      obtain ⟨next, hnext, hlog⟩ := Option.bind_eq_some_iff.mp h
      rw [ih hlog, wasKilled_after hnext, List.mem_cons, or_assoc]

end Child

def Waited.child : Waited → Child
  | ended exit => .ended exit
  | expired => .started
  | failed _ => .started

theorem replay_waitUntil (poll : Nat → Nat → Poll) (lag : Nat → Nat)
    (deadline k now : Nat) :
    Child.started.replay (waitUntil poll lag deadline k now).log =
      some (waitUntil poll lag deadline k now).result.child := by
  fun_induction waitUntil poll lag deadline k now with
  | case1 => rfl
  | case2 => rfl
  | case3 => rfl
  | case4 k now _ _ later ih =>
      rw [Child.replay_cons rfl, Child.replay_cons rfl]
      exact ih

namespace Command

variable {c : Command} {s : Surroundings} {deadline now t : Nat}

theorem exit_of_finish {exit : Option Int} {output : CommandOutput}
    (h : c.finish s deadline now exit = .returned t (.ok output)) :
    output.exit = exit := by
  cases hcollect : collect deadline 2 s.readers now [] [] with
  | outputs last out err =>
      rw [c.finish_of_outputs exit hcollect] at h
      by_cases hinput : c.input.isSome
      · rw [if_pos hinput] at h
        rw [eq_of_joinWriter h]
        rfl
      · rw [if_neg hinput] at h
        cases h
        rfl
  | failed last cause =>
      rw [c.finish_of_failed exit hcollect] at h
      cases h
  | expired last =>
      rw [c.finish_of_expired exit hcollect] at h
      cases h

/-- A run that has started a child sees it end and goes on, or kills it, waits for it
and fails. -/
theorem run_child (hdeadline : deadline? s.start c.timeout = some deadline)
    (hspawn : s.spawn = .ok ()) :
    (∃ exit k now, s.poll k now = .ended exit ∧
        Child.started.replay (c.run s).log = some (.ended exit) ∧
        (c.run s).ending = c.finish s deadline now exit) ∨
      (Child.started.replay (c.run s).log = some .reaped ∧
        ∃ t e, (c.run s).ending = .returned t (.error e)) := by
  by_cases hpipes : s.hasPipes
  · have hwait := replay_waitUntil s.poll s.lag deadline 0 s.start
    rcases c.run_of_spawn s hdeadline hspawn hpipes with
      ⟨exit, hended, hlog, hending⟩ | ⟨hexpired, hlog, hending⟩ |
        ⟨cause, hfailed, hlog, hending⟩
    · obtain ⟨k, hpoll⟩ := exists_poll_waitUntil s.poll s.lag deadline 0 s.start
      rw [hended] at hwait hpoll
      exact Or.inl ⟨exit, k, _, hpoll, hlog ▸ hwait, hending⟩
    · rw [hexpired] at hwait
      rw [hlog, Child.replay_append hwait]
      exact Or.inr ⟨rfl, _, _, hending⟩
    · rw [hfailed] at hwait
      rw [hlog, Child.replay_append hwait]
      exact Or.inr ⟨rfl, _, _, hending⟩
  · -- Without its outputs the child is killed before it is asked anything.
    right
    simp only [run, hdeadline, hspawn, hpipes]
    exact ⟨rfl, _, _, rfl⟩

/-- A run that returns has waited for its child.  It fails if it has killed the child,
and an output comes with the exit code of a child that ended by itself. -/
theorem run_waits_for_child (c : Command) (s : Surroundings) {t : Nat}
    {result : Except CommandError CommandOutput} (hspawn : s.spawn = .ok ())
    (hreturned : (c.run s).ending = .returned t result) :
    ∃ child, Child.started.replay (c.run s).log = some child ∧ child.WaitedFor ∧
      (.killed ∈ (c.run s).log → ∃ e, result = .error e) ∧
      ∀ output, result = .ok output → child = .ended output.exit ∧
        .killed ∉ (c.run s).log ∧ ∃ k now, s.poll k now = .ended output.exit := by
  cases hdeadline : deadline? s.start c.timeout with
  | none =>
      rw [run, hdeadline] at hreturned
      cases hreturned
  | some deadline =>
      rcases run_child hdeadline hspawn with
        ⟨exit, k, now, hpoll, hreplay, hending⟩ | ⟨hreplay, t', e, hending⟩
      · have hkilled : .killed ∉ (c.run s).log := by
          intro hmem
          exact (Child.wasKilled_replay hreplay).mpr (Or.inr hmem)
        refine ⟨.ended exit, hreplay, trivial, fun hmem => absurd hmem hkilled, ?_⟩
        intro output hok
        have hexit : output.exit = exit := by
          apply exit_of_finish
          rw [← hending, hreturned, hok]
        rw [hexit]
        exact ⟨rfl, hkilled, k, now, hpoll⟩
      · obtain ⟨-, rfl⟩ := Ending.returned.inj (hreturned.symm.trans hending)
        refine ⟨.reaped, hreplay, trivial, fun _ => ⟨e, rfl⟩, ?_⟩
        intro output hok
        cases hok

/-- A linter that is asked for its version runs for one more sleep and then ends with
an error. -/
def endedSoon : Surroundings where
  start := 0
  spawn := .ok ()
  hasPipes := true
  poll := fun k _ => if k = 0 then .running else .ended (some 1)
  lag := fun _ => 0
  readers := [
    ⟨.stdout, .reports 3000000 (.ok [])⟩,
    ⟨.stderr, .reports 4000000 (.ok [])⟩]
  writer := .never

def askedVersion : Command :=
  version ⟨"shellcheck"⟩ (.ofSecs 1)

theorem ending_endedSoon :
    (askedVersion.run endedSoon).ending =
      .returned pollInterval (.ok (.ofBytes (some 1) [] [])) := by
  have hdeadline : deadline? endedSoon.start askedVersion.timeout =
      some 1000000000 := rfl
  rcases askedVersion.run_of_spawn endedSoon hdeadline rfl rfl with
    ⟨exit, hended, -, hending⟩ | ⟨hexpired, -, -⟩ | ⟨cause, hfailed, -, -⟩
  · rw [hending]
    rw [waitUntil, waitUntil] at hended ⊢
    cases hended
    rfl
  · rw [waitUntil, waitUntil] at hexpired
    cases hexpired
  · rw [waitUntil, waitUntil] at hfailed
    cases hfailed

theorem run_waits_for_child_endedSoon :
    endedSoon.spawn = .ok () ∧
      (askedVersion.run endedSoon).ending =
        .returned pollInterval (.ok (.ofBytes (some 1) [] [])) ∧
      Child.started.replay (askedVersion.run endedSoon).log =
        some (.ended (some 1)) := by
  obtain ⟨child, hreplay, -, -, hok⟩ :=
    run_waits_for_child askedVersion endedSoon rfl ending_endedSoon
  obtain ⟨rfl, -⟩ := hok _ rfl
  exact ⟨rfl, ending_endedSoon, hreplay⟩

end Command

end Lintmark
