/-
How often a child is asked whether it has ended, and what the answers decide.  A clock
that never goes back reaches the deadline after a number of sleeps that can be told
beforehand, so that the questions come to an end, and the last one gives the result.
-/
import Mathlib.Algebra.Order.Floor.Div
import Lintmark.Proofs.Command.Waiting

namespace Lintmark

def Event.poll? : Event → Option (Nat × Poll)
  | polled now answer => some (now, answer)
  | _ => none

/-- The questions that were asked while waiting. -/
def Wait.polls (w : Wait) : List (Nat × Poll) :=
  w.log.filterMap Event.poll?

/-- What a clock shows to somebody who waits until a deadline.  There is one look at it
behind every question, and a sleep between two looks. -/
structure WaitClock (deadline : Nat) where
  entry : Nat
  /-- What the clock shows behind each question. -/
  look : Nat → Nat
  entry_le : entry ≤ look 0
  /-- The clock never goes back, and a sleep lasts at least as long as asked. -/
  sleep_le (k : Nat) : look k + sleepLength deadline (look k) ≤ look (k + 1)

namespace WaitClock

variable {deadline : Nat} (clock : WaitClock deadline) (poll : Nat → Nat → Poll)

/-- How much longer than asked each sleep lasts. -/
def lag (k : Nat) : Nat :=
  clock.look (k + 1) - (clock.look k + sleepLength deadline (clock.look k))

def answer (k : Nat) : Poll :=
  poll k (clock.look k)

def waitFrom (k : Nat) : Wait :=
  waitUntil poll clock.lag deadline k (clock.look k)

/-- Nothing is decided by question `k`: the child is running, and it is not time yet. -/
def Undecided (k : Nat) : Prop :=
  clock.answer poll k = .running ∧ clock.look k < deadline

/-- What is done about a question that decides nothing. -/
def turn (k : Nat) : List Event :=
  [.polled (clock.look k) .running,
    .slept (clock.look k) (sleepLength deadline (clock.look k))]

instance : DecidablePred (clock.Undecided poll) := fun k =>
  inferInstanceAs (Decidable (clock.answer poll k = .running ∧ clock.look k < deadline))

variable {poll} {k : Nat}

theorem look_add_lag (k : Nat) :
    clock.look k + sleepLength deadline (clock.look k) + clock.lag k =
      clock.look (k + 1) :=
  Nat.add_sub_of_le (clock.sleep_le k)

theorem waitFrom_of_undecided (h : clock.Undecided poll k) :
    clock.waitFrom poll k =
      { clock.waitFrom poll (k + 1) with
        log := clock.turn k ++ (clock.waitFrom poll (k + 1)).log } := by
  obtain ⟨hrunning, hearly⟩ := h
  rw [answer] at hrunning
  rw [waitFrom, waitUntil]
  simp only [hrunning, if_neg (Nat.not_le.mpr hearly), look_add_lag]
  rfl

/-- The question that decides is the last one, and its answer is the result. -/
theorem waitFrom_of_decided (h : ¬ clock.Undecided poll k) :
    (clock.waitFrom poll k).log = [.polled (clock.look k) (clock.answer poll k)] ∧
      (clock.waitFrom poll k).result.answer = clock.answer poll k := by
  have hdecided : clock.answer poll k = .running → deadline ≤ clock.look k :=
    fun hrunning => Nat.not_lt.mp fun hearly => h ⟨hrunning, hearly⟩
  rw [waitFrom, waitUntil]
  rw [answer] at hdecided ⊢
  cases hanswer : poll k (clock.look k) with
  | running =>
      simp only [if_pos (hdecided hanswer)]
      exact ⟨trivial, rfl⟩
  | ended exit => exact ⟨rfl, rfl⟩
  | failed cause => exact ⟨rfl, rfl⟩

theorem waitFrom_zero {n : Nat} (h : ∀ k < n, clock.Undecided poll k) :
    clock.waitFrom poll 0 =
      { clock.waitFrom poll n with
        log := (List.range n).flatMap clock.turn ++ (clock.waitFrom poll n).log } := by
  induction n with
  | zero => rfl
  | succ n ih =>
      rw [ih fun k hk => h k (Nat.lt_succ_of_lt hk),
        clock.waitFrom_of_undecided (h n (Nat.lt_succ_self n)), List.range_succ,
        List.flatMap_append, List.flatMap_singleton, List.append_assoc]

/-- Sleeps bring the clock up to the deadline, a poll interval at a time. -/
theorem min_le_look (n : Nat) :
    min (clock.entry + n * pollInterval) deadline ≤ clock.look n := by
  induction n with
  | zero =>
      rw [Nat.zero_mul, Nat.add_zero]
      exact Nat.le_trans (Nat.min_le_left _ _) clock.entry_le
  | succ n ih =>
      have hsleep := clock.sleep_le n
      rw [sleepLength] at hsleep
      rw [Nat.succ_mul]
      omega

/-- Some question decides, at the latest the one that is asked when as many sleeps are
over as fit between the beginning and the deadline. -/
theorem exists_last (poll : Nat → Nat → Poll) :
    ∃ last ≤ (deadline - clock.entry) ⌈/⌉ pollInterval,
      ¬ clock.Undecided poll last ∧ ∀ k < last, clock.Undecided poll k := by
  have hpos : 0 < pollInterval := by decide
  have hreached : deadline - clock.entry ≤
      pollInterval * ((deadline - clock.entry) ⌈/⌉ pollInterval) :=
    le_smul_ceilDiv hpos
  have hlook := clock.min_le_look ((deadline - clock.entry) ⌈/⌉ pollInterval)
  rw [Nat.mul_comm] at hreached
  have hdecided : ¬ clock.Undecided poll ((deadline - clock.entry) ⌈/⌉ pollInterval) := by
    rintro ⟨-, hearly⟩
    omega
  have hexists : ∃ k, ¬ clock.Undecided poll k := ⟨_, hdecided⟩
  exact ⟨Nat.find hexists, Nat.find_le hdecided, Nat.find_spec hexists,
    fun k hk => not_not.mp (Nat.find_min hexists hk)⟩

/-- What is done while waiting, when question `last` is the first that decides. -/
theorem log_eq {last : Nat} (hlast : ¬ clock.Undecided poll last)
    (hbefore : ∀ k < last, clock.Undecided poll k) :
    (clock.waitFrom poll 0).log = (List.range last).flatMap clock.turn ++
      [.polled (clock.look last) (clock.answer poll last)] := by
  rw [clock.waitFrom_zero hbefore, (clock.waitFrom_of_decided hlast).1]

theorem result_answer_eq {last : Nat} (hlast : ¬ clock.Undecided poll last)
    (hbefore : ∀ k < last, clock.Undecided poll k) :
    (clock.waitFrom poll 0).result.answer = clock.answer poll last := by
  rw [clock.waitFrom_zero hbefore]
  exact (clock.waitFrom_of_decided hlast).2

theorem polls_eq {last : Nat} (hlast : ¬ clock.Undecided poll last)
    (hbefore : ∀ k < last, clock.Undecided poll k) :
    (clock.waitFrom poll 0).polls =
      (List.range (last + 1)).map fun k => (clock.look k, clock.answer poll k) := by
  have hturns : ((List.range last).flatMap clock.turn).filterMap Event.poll? =
      (List.range last).map fun k => (clock.look k, clock.answer poll k) := by
    rw [List.filterMap_flatMap, List.map_eq_flatMap]
    apply List.flatMap_congr
    intro k hk
    rw [(hbefore k (List.mem_range.mp hk)).1]
    rfl
  rw [Wait.polls, clock.log_eq hlast hbefore, List.filterMap_append, hturns,
    List.range_succ, List.map_append]
  rfl

theorem slept_mem {last now length : Nat} (hlast : ¬ clock.Undecided poll last)
    (hbefore : ∀ k < last, clock.Undecided poll k)
    (h : .slept now length ∈ (clock.waitFrom poll 0).log) :
    now < deadline ∧ now + length ≤ deadline := by
  rw [clock.log_eq hlast hbefore] at h
  simp only [List.mem_append, List.mem_flatMap, List.mem_range, turn, List.mem_cons,
    List.not_mem_nil, or_false, reduceCtorEq, false_or, Event.slept.injEq] at h
  obtain ⟨k, hk, rfl, rfl⟩ := h
  have hearly := (hbefore k hk).2
  have hsleep : sleepLength deadline (clock.look k) ≤ deadline - clock.look k :=
    Nat.min_le_right _ _
  omega

theorem polls_length_le (poll : Nat → Nat → Poll) :
    (clock.waitFrom poll 0).polls.length ≤
      (deadline - clock.entry) ⌈/⌉ pollInterval + 1 := by
  obtain ⟨last, hle, hlast, hbefore⟩ := clock.exists_last poll
  rw [clock.polls_eq hlast hbefore, List.length_map, List.length_range]
  exact Nat.succ_le_succ hle

/-- A question with a decisive answer that is asked is the last one.  Whatever holds of a
running child holds of all answers before. -/
theorem exists_answer_iff {last : Nat} (hbefore : ∀ k < last, clock.Undecided poll k)
    {decisive : Poll} (hdecisive : decisive ≠ .running) {P : Poll → Prop} (hP : P .running) :
    (∃ k < last + 1, clock.answer poll k = decisive ∧
        ∀ j < k, P (clock.answer poll j)) ↔
      clock.answer poll last = decisive := by
  constructor
  · rintro ⟨k, hk, hanswer, -⟩
    rcases Nat.lt_or_eq_of_le (Nat.le_of_lt_succ hk) with hlt | rfl
    · exact absurd (hanswer.symm.trans (hbefore k hlt).1) hdecisive
    · exact hanswer
  · intro hanswer
    refine ⟨last, Nat.lt_succ_self last, hanswer, fun j hj => ?_⟩
    rw [(hbefore j hj).1]
    exact hP

/-- What a clock shows at each look when waiting begins at `start` and every sleep lasts
some time longer than asked. -/
def lookAfter (deadline start : Nat) (lag : Nat → Nat) : Nat → Nat
  | 0 => start
  | k + 1 =>
    let now := lookAfter deadline start lag k
    now + sleepLength deadline now + lag k

/-- The clock of a wait that begins at `start`. -/
def ofLag (deadline start : Nat) (lag : Nat → Nat) : WaitClock deadline where
  entry := start
  look := lookAfter deadline start lag
  entry_le := Nat.le_refl start
  sleep_le _ := Nat.le_add_right _ _

theorem lag_ofLag (deadline start : Nat) (lag : Nat → Nat) :
    (ofLag deadline start lag).lag = lag :=
  funext fun _ => Nat.add_sub_cancel_left _ _

theorem waitFrom_ofLag (poll : Nat → Nat → Poll) (lag : Nat → Nat) (deadline start : Nat) :
    (ofLag deadline start lag).waitFrom poll 0 = waitUntil poll lag deadline 0 start := by
  rw [waitFrom, lag_ofLag]
  rfl

/-- Waiting ends, and its questions decide how.  There is at least one question, and at
most one more than poll intervals up to the deadline, the last of them rounded up.  No
sleep reaches beyond the deadline.  The result is an exit code exactly if some question
sees the child ended and none before it fails, and an error exactly if some question
fails and none before it sees the child ended.  The time has expired only if the last
question found the child running and the clock then showed the deadline or more. -/
theorem waitUntil_decided_by_polls (clock : WaitClock deadline)
    (poll : Nat → Nat → Poll) :
    let w := waitUntil poll clock.lag deadline 0 (clock.look 0)
    let answer := clock.answer poll
    w.polls = ((List.range w.polls.length).map fun k => (clock.look k, answer k)) ∧
      1 ≤ w.polls.length ∧
      w.polls.length ≤ (deadline - clock.entry) ⌈/⌉ pollInterval + 1 ∧
      (∀ now length, .slept now length ∈ w.log →
        now < deadline ∧ now + length ≤ deadline) ∧
      (∀ exit, w.result = .ended exit ↔
        ∃ k < w.polls.length, answer k = .ended exit ∧
          ∀ j < k, ∀ cause, answer j ≠ .failed cause) ∧
      (∀ cause, w.result = .failed cause ↔
        ∃ k < w.polls.length, answer k = .failed cause ∧
          ∀ j < k, ∀ exit, answer j ≠ .ended exit) ∧
      (w.result = .expired →
        ∃ now, w.polls.getLast? = some (now, .running) ∧ deadline ≤ now) := by
  obtain ⟨last, hle, hlast, hbefore⟩ := clock.exists_last poll
  have hpolls := clock.polls_eq hlast hbefore
  have hanswer := clock.result_answer_eq hlast hbefore
  have hlength : (clock.waitFrom poll 0).polls.length = last + 1 := by
    rw [hpolls, List.length_map, List.length_range]
  intro w answer
  change w.polls = _ at hpolls
  change w.result.answer = answer last at hanswer
  change w.polls.length = last + 1 at hlength
  rw [hlength]
  refine ⟨hpolls, Nat.le_add_left 1 last, Nat.succ_le_succ hle, ?_, ?_, ?_, ?_⟩
  · intro now length
    exact clock.slept_mem hlast hbefore
  · intro exit
    rw [clock.exists_answer_iff hbefore (P := fun a => ∀ cause, a ≠ .failed cause)
      (by simp) (by simp)]
    exact ⟨fun hended => hanswer.symm.trans (congrArg Waited.answer hended),
      fun hended => Waited.eq_ended_of_answer (hanswer.trans hended)⟩
  · intro cause
    rw [clock.exists_answer_iff hbefore (P := fun a => ∀ exit, a ≠ .ended exit)
      (by simp) (by simp)]
    exact ⟨fun hfailed => hanswer.symm.trans (congrArg Waited.answer hfailed),
      fun hfailed => Waited.eq_failed_of_answer (hanswer.trans hfailed)⟩
  · intro hexpired
    have hrunning : answer last = .running :=
      hanswer.symm.trans (congrArg Waited.answer hexpired)
    refine ⟨clock.look last, ?_, Nat.not_lt.mp fun hearly => hlast ⟨hrunning, hearly⟩⟩
    rw [hpolls, List.range_succ, List.map_append, List.map_singleton,
      List.getLast?_concat]
    exact congrArg (fun a => some (clock.look last, a)) hrunning

/-- The second of two sleeps lasts until after the deadline, and the child ends meanwhile.
It is asked once more before the clock is looked at. -/
theorem waitUntil_decided_by_polls_of_long_sleep :
    let clock := ofLag 25000000 3000000 fun k => if k = 1 then 7000000 else 0
    let w := waitUntil (fun k _ => if k = 2 then .ended (some 0) else .running) clock.lag
      25000000 0 (clock.look 0)
    w.polls.length = 3 ∧ clock.look 2 = 30000000 ∧ w.result = .ended (some 0) := by
  intro clock w
  have hlength : w.polls.length = 3 := by decide +kernel
  obtain ⟨-, -, -, -, hended, -, -⟩ := clock.waitUntil_decided_by_polls
    fun k _ => if k = 2 then .ended (some 0) else .running
  refine ⟨hlength, rfl, (hended (some 0)).mpr ⟨2, ?_, rfl, ?_⟩⟩
  · exact hlength ▸ Nat.lt_succ_self 2
  · intro j hj cause
    simp [answer, Nat.ne_of_lt hj]

end WaitClock

/-- A run asks its child at most once for every poll interval of its time limit, and once
more. -/
theorem Command.run_polls_le (c : Command) (s : Surroundings) :
    ((c.run s).log.filterMap Event.poll?).length ≤
      c.timeout.nanos ⌈/⌉ pollInterval + 1 := by
  cases hdeadline : deadline? s.start c.timeout with
  | none =>
      rw [run, hdeadline]
      exact Nat.zero_le _
  | some deadline =>
      have hwait := (WaitClock.ofLag deadline s.start s.lag).polls_length_le s.poll
      rw [WaitClock.waitFrom_ofLag] at hwait
      have hlimit : deadline - s.start = c.timeout.nanos := by
        rw [deadline?_eq_some hdeadline, Nat.add_sub_cancel_left]
      change _ ≤ (deadline - s.start) ⌈/⌉ pollInterval + 1 at hwait
      rw [hlimit, Wait.polls] at hwait
      have hkilled : [Event.killed, .reaped].filterMap Event.poll? = [] := rfl
      cases hspawn : s.spawn with
      | error cause =>
          simp only [run, hdeadline, hspawn]
          exact Nat.zero_le _
      | ok =>
          cases hpipes : s.hasPipes with
          | false =>
              simp only [run, hdeadline, hspawn, hpipes]
              exact Nat.zero_le _
          | true =>
              rcases c.run_of_spawn s hdeadline hspawn hpipes with
                ⟨exit, -, hlog, -⟩ | ⟨-, hlog, -⟩ | ⟨cause, -, hlog, -⟩
              · rwa [hlog]
              · rwa [hlog, List.filterMap_append, hkilled, List.append_nil]
              · rwa [hlog, List.filterMap_append, hkilled, List.append_nil]

end Lintmark
