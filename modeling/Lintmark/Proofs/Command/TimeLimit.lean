/-
The time limit of a run.  A run is over two poll intervals behind its deadline
at the latest, unless it waits for the thread that feeds the child.  Nothing
bounds that wait.
-/
import Lintmark.Proofs.Command.Collecting
import Lintmark.Proofs.Command.Waiting

namespace Lintmark

/-- What becomes of a child that has started, and when.  What never happens has no
time. -/
structure Timeline where
  start : Nat
  /-- The child ends by itself, with an exit code or after a signal. -/
  exit : Option (Nat × Option Int)
  /-- The end of the output is reached behind these bytes. -/
  stdout : Option (Nat × List UInt8)
  /-- The end of the error output is reached behind these bytes. -/
  stderr : Option (Nat × List UInt8)
  fed : Option Nat

/-- What has a time has happened by another one. -/
def HappenedBy {α : Type} (event : Option (Nat × α)) (now : Nat) : Prop :=
  ∃ e ∈ event, e.1 ≤ now

theorem HappenedBy.mono {α : Type} {event : Option (Nat × α)} {a b : Nat}
    (h : HappenedBy event a) (hab : a ≤ b) : HappenedBy event b := by
  obtain ⟨e, he, ht⟩ := h
  exact ⟨e, he, Nat.le_trans ht hab⟩

namespace Timeline

def poll (l : Timeline) (now : Nat) : Poll :=
  match l.exit with
  | some (t, exit) => if t ≤ now then .ended exit else .running
  | none => .running

/-- A reader reports at the end of its output. -/
def closing : Option (Nat × List UInt8) → Fate (Except SystemError (List UInt8))
  | some (t, bytes) => .reports t (.ok bytes)
  | none => .never

/-- The thread that feeds the child is done when the input is written. -/
def feeding (l : Timeline) : Fate (Except SystemError Unit) :=
  match l.fed with
  | some t => .reports t (.ok ())
  | none => .never

/-- What a run meets.  Asking takes no time, and sleeps last as long as asked. -/
def surroundings (l : Timeline) : Surroundings where
  start := l.start
  spawn := .ok ()
  hasPipes := true
  poll := fun _ now => l.poll now
  lag := fun _ => 0
  readers := [⟨.stdout, closing l.stdout⟩, ⟨.stderr, closing l.stderr⟩]
  writer := l.feeding

/-- The child has ended and nothing more comes from its outputs. -/
structure Over (l : Timeline) (now : Nat) : Prop where
  exit : HappenedBy l.exit now
  stdout : HappenedBy l.stdout now
  stderr : HappenedBy l.stderr now

def Fed (l : Timeline) (now : Nat) : Prop :=
  ∃ t ∈ l.fed, t ≤ now

variable {l : Timeline} {now deadline : Nat}

theorem Over.mono {a b : Nat} (h : l.Over a) (hab : a ≤ b) : l.Over b :=
  ⟨h.exit.mono hab, h.stdout.mono hab, h.stderr.mono hab⟩

theorem poll_cases (l : Timeline) (now : Nat) :
    (HappenedBy l.exit now ∧ ∃ exit, l.poll now = .ended exit) ∨
      (¬ HappenedBy l.exit now ∧ l.poll now = .running) := by
  unfold poll HappenedBy
  rcases l.exit with _ | ⟨t, exit⟩
  · refine Or.inr ⟨?_, rfl⟩
    rintro ⟨e, he, -⟩
    cases he
  · by_cases ht : t ≤ now
    · exact Or.inl ⟨⟨_, rfl, ht⟩, exit, if_pos ht⟩
    · refine Or.inr ⟨?_, if_neg ht⟩
      rintro ⟨e, he, ht'⟩
      cases he
      exact ht ht'

/-- The child is seen to end by the deadline, or it is still running there. -/
theorem waitUntil_cases (hstart : l.start ≤ deadline) :
    let w := waitUntil l.surroundings.poll l.surroundings.lag deadline 0
      l.surroundings.start
    w.time ≤ deadline ∧
      ((HappenedBy l.exit w.time ∧ ∃ exit, w.result = .ended exit) ∨
        (¬ HappenedBy l.exit deadline ∧ w.result = .expired)) := by
  intro w
  have htime : w.time ≤ deadline :=
    waitUntil_time_le _ _ _ _ _ (fun _ => rfl) hstart
  obtain ⟨j, hanswer⟩ : ∃ j, l.surroundings.poll j w.time = w.result.answer :=
    exists_poll_waitUntil _ _ _ _ _
  change l.poll w.time = w.result.answer at hanswer
  refine ⟨htime, ?_⟩
  rcases l.poll_cases w.time with ⟨hexit, exit, hpoll⟩ | ⟨hexit, hpoll⟩
  · rw [hpoll] at hanswer
    exact Or.inl ⟨hexit, exit, Waited.eq_ended_of_answer hanswer.symm⟩
  · rw [hpoll] at hanswer
    have hexpired := Waited.eq_expired_of_answer hanswer.symm
    have hdeadline : deadline ≤ w.time :=
      deadline_le_waitUntil_time _ _ _ _ _ hexpired
    exact Or.inr ⟨fun h => hexit (h.mono hdeadline), hexpired⟩

theorem mem_readers {r : Reader} (hr : r ∈ l.surroundings.readers) :
    r.fate = closing l.stdout ∨ r.fate = closing l.stderr := by
  rcases List.mem_cons.mp hr with rfl | hr
  · exact Or.inl rfl
  · obtain rfl := List.mem_singleton.mp hr
    exact Or.inr rfl

theorem not_fails {r : Reader} (hr : r ∈ l.surroundings.readers) : ¬ r.Fails := by
  have hclosing : ∃ output, r.fate = closing output := by
    rcases mem_readers hr with hfate | hfate
    · exact ⟨_, hfate⟩
    · exact ⟨_, hfate⟩
  obtain ⟨output, hfate⟩ := hclosing
  rintro (⟨t, cause, h⟩ | ⟨t, h⟩)
  · rw [hfate] at h
    cases output <;> cases h
  · rw [hfate] at h
    cases output <;> cases h

theorem happenedBy_of_delivers {r : Reader} {output : Option (Nat × List UInt8)}
    (hfate : r.fate = closing output) (h : r.Delivers now) :
    HappenedBy output now := by
  obtain ⟨t, bytes, hreports, ht⟩ := h
  rw [hfate] at hreports
  cases output with
  | none => cases hreports
  | some o =>
      cases hreports
      exact ⟨o, rfl, ht⟩

theorem not_happenedBy_of_silentTo {r : Reader} {output : Option (Nat × List UInt8)}
    (hfate : r.fate = closing output) (h : r.SilentTo now) :
    ¬ HappenedBy output now := by
  rintro ⟨⟨t, bytes⟩, ho, ht⟩
  cases ho
  exact Nat.not_le_of_lt (h t (.ok bytes) hfate) ht

/-- Collecting gets both outputs in time, or one is open at the deadline. -/
theorem collect_cases (l : Timeline) (deadline now : Nat) :
    (∃ t ≤ max deadline now + 2 * pollInterval, ∃ out err,
        collect deadline 2 l.surroundings.readers now [] [] = .outputs t out err ∧
          now ≤ t ∧ HappenedBy l.stdout t ∧ HappenedBy l.stderr t) ∨
      ∃ t ≤ max deadline now + 2 * pollInterval,
        collect deadline 2 l.surroundings.readers now [] [] = .expired t ∧
          ¬ (HappenedBy l.stdout deadline ∧ HappenedBy l.stderr deadline) := by
  have hstreams : (l.surroundings.readers.map Reader.stream).Nodup := by
    change [Stream.stdout, Stream.stderr].Nodup
    decide
  have hlength : l.surroundings.readers.length = 2 := rfl
  obtain ⟨haccounts, htime⟩ := collect_accounts deadline now [] [] hstreams hlength
  cases hcollect : collect deadline 2 l.surroundings.readers now [] [] with
  | outputs t out err =>
      rw [hcollect] at haccounts htime
      obtain ⟨hnow, hdelivers⟩ := haccounts
      have hstdout := hdelivers _ List.mem_cons_self
      have hstderr := hdelivers _ (List.mem_cons_of_mem _ List.mem_cons_self)
      exact Or.inl ⟨t, htime, out, err, rfl, hnow,
        happenedBy_of_delivers rfl hstdout, happenedBy_of_delivers rfl hstderr⟩
  | failed t cause =>
      rw [hcollect] at haccounts
      obtain ⟨r, hr, hfails⟩ := haccounts
      exact absurd hfails (not_fails hr)
  | expired t =>
      rw [hcollect] at haccounts htime
      obtain ⟨r, hr, hsilent⟩ := haccounts
      refine Or.inr ⟨t, htime, rfl, ?_⟩
      rintro ⟨hstdout, hstderr⟩
      rcases mem_readers hr with hfate | hfate
      · exact not_happenedBy_of_silentTo hfate hsilent hstdout
      · exact not_happenedBy_of_silentTo hfate hsilent hstderr

variable {c : Command}

/-- A run takes too long and says so in time, or it goes on in time to the thread
that feeds the child. -/
theorem run_cases (hdeadline : deadline? l.start c.timeout = some deadline) :
    (¬ l.Over deadline ∧ ∃ t ≤ deadline + 2 * pollInterval,
        (c.run l.surroundings).ending =
          .returned t (.error (.timeout c.line c.timeout))) ∨
      ∃ t ≤ deadline + 2 * pollInterval, l.Over t ∧ ∃ output,
        (c.run l.surroundings).ending =
          if c.input.isSome then joinWriter l.feeding t output
          else .returned t (.ok output) := by
  have hstart : l.start ≤ deadline := by
    rw [deadline?_eq_some hdeadline]
    exact Nat.le_add_right _ _
  obtain ⟨htime, hwaited⟩ := waitUntil_cases hstart
  rcases c.run_of_spawn l.surroundings hdeadline rfl rfl with
    ⟨exit, hended, -, hending⟩ | ⟨hexpired, -, hending⟩ | ⟨cause, hfailed, -, -⟩
  · rw [hending]
    rcases hwaited with ⟨hexit, -⟩ | ⟨-, hexpired⟩
    · rcases l.collect_cases deadline _ with
        ⟨t, ht, out, err, hcollect, hnow, hstdout, hstderr⟩ | ⟨t, ht, hcollect, hopen⟩
      · rw [Nat.max_eq_left htime] at ht
        rw [c.finish_of_outputs exit hcollect]
        exact Or.inr ⟨t, ht, ⟨hexit.mono hnow, hstdout, hstderr⟩, _, rfl⟩
      · rw [Nat.max_eq_left htime] at ht
        rw [c.finish_of_expired exit hcollect]
        exact Or.inl ⟨fun hover => hopen ⟨hover.stdout, hover.stderr⟩, t, ht, rfl⟩
    · cases hended.symm.trans hexpired
  · rcases hwaited with ⟨-, exit, hended⟩ | ⟨hexit, -⟩
    · cases hended.symm.trans hexpired
    · exact Or.inl ⟨fun hover => hexit hover.exit, _,
        Nat.le_trans htime (Nat.le_add_right _ _), hending⟩
  · rcases hwaited with ⟨-, exit, hended⟩ | ⟨-, hexpired⟩
    · cases hended.symm.trans hfailed
    · cases hexpired.symm.trans hfailed

theorem joinWriter_of_fed {t u : Nat} {output : CommandOutput}
    (h : l.fed = some u) :
    joinWriter l.feeding t output = .returned (max t u) (.ok output) := by
  rw [feeding, h]
  rfl

theorem joinWriter_of_never {t : Nat} {output : CommandOutput} (h : l.fed = none) :
    joinWriter l.feeding t output = .stuck := by
  rw [feeding, h]
  rfl

/-- A run is over at its limit, and has taken too long if the child or its outputs
are not done by then.  The exception is a child that is not fed by then: the run
may last exactly as long as feeding does, and it does if all else was in time. -/
theorem run_within_limit_unless_unfed (c : Command) (l : Timeline) {deadline : Nat}
    (hdeadline : deadline? l.start c.timeout = some deadline) :
    let limit := deadline + 2 * pollInterval
    let ending := (c.run l.surroundings).ending
    (¬ l.Over limit →
        ∃ t ≤ limit, ending = .returned t (.error (.timeout c.line c.timeout))) ∧
      (c.input = none ∨ l.Fed limit →
        ∃ t ≤ limit, ∃ result, ending = .returned t result) ∧
      (c.input ≠ none → ¬ l.Fed limit →
        (¬ l.Over deadline ∧
            ∃ t ≤ limit, ending = .returned t (.error (.timeout c.line c.timeout))) ∨
          match l.fed with
          | some t => ∃ output, ending = .returned t (.ok output)
          | none => ending = .stuck) := by
  intro limit ending
  rcases run_cases hdeadline with
    ⟨hopen, t, ht, hending⟩ | ⟨t, ht, hover, output, hending⟩
  · refine ⟨fun _ => ⟨t, ht, hending⟩, fun _ => ⟨t, ht, _, hending⟩, ?_⟩
    intro _ _
    exact Or.inl ⟨hopen, t, ht, hending⟩
  · refine ⟨fun hopen => absurd (hover.mono ht) hopen, ?_, ?_⟩
    · rintro (hinput | ⟨u, hfed, hu⟩)
      · rw [hinput] at hending
        exact ⟨t, ht, _, hending⟩
      · by_cases hinput : c.input.isSome
        · rw [if_pos hinput, joinWriter_of_fed hfed] at hending
          exact ⟨_, Nat.max_le.mpr ⟨ht, hu⟩, _, hending⟩
        · rw [if_neg hinput] at hending
          exact ⟨t, ht, _, hending⟩
    · intro hinput hunfed
      rw [if_pos (Option.isSome_iff_ne_none.mpr hinput)] at hending
      right
      cases hfed : l.fed with
      | none =>
          rw [joinWriter_of_never hfed] at hending
          exact hending
      | some u =>
          have hlate : t ≤ u := by
            apply Nat.le_of_not_le
            intro hu
            exact hunfed ⟨u, hfed, Nat.le_trans hu ht⟩
          rw [joinWriter_of_fed hfed, Nat.max_eq_right hlate] at hending
          exact ⟨output, hending⟩

/-- A shell that ends at once and leaves behind a child of its own.  That one holds
the input for two seconds without reading it. -/
def heldInput : Timeline where
  start := 0
  exit := some (2000000, some 0)
  stdout := some (2000000, [])
  stderr := some (2000000, [])
  fed := some 2000000000

def holdInput : Command where
  executable := ⟨"sh"⟩
  args := ["-c", "exec 3<&0; sleep 2 >/dev/null 2>&1 &"]
  input := some (String.ofList (List.replicate 100000 'x'))
  timeout := ⟨500000000⟩

theorem heldInput_over : heldInput.Over 500000000 :=
  ⟨⟨_, rfl, by decide⟩, ⟨_, rfl, by decide⟩, ⟨_, rfl, by decide⟩⟩

theorem heldInput_not_fed : ¬ heldInput.Fed (500000000 + 2 * pollInterval) := by
  rintro ⟨t, ht, hle⟩
  cases ht
  exact absurd hle (by decide)

/-- The shell that holds its input is waited for until the input comes free. -/
theorem run_within_limit_unless_unfed_of_held_input :
    deadline? heldInput.start holdInput.timeout = some 500000000 ∧
      holdInput.input ≠ none ∧ ¬ heldInput.Fed (500000000 + 2 * pollInterval) ∧
      ∃ output, (holdInput.run heldInput.surroundings).ending =
        .returned 2000000000 (.ok output) := by
  have hdeadline : deadline? heldInput.start holdInput.timeout = some 500000000 := rfl
  have hinput : holdInput.input ≠ none := fun h => by cases h
  refine ⟨hdeadline, hinput, heldInput_not_fed, ?_⟩
  have hlate := (run_within_limit_unless_unfed holdInput heldInput hdeadline).2.2
    hinput heldInput_not_fed
  rcases hlate with ⟨hopen, -⟩ | hfed
  · exact absurd heldInput_over hopen
  · exact hfed

/-- Half a second is over, and so are two poll intervals more, when the input comes
free and the run returns. -/
theorem run_not_within_limit :
    ¬ ∀ (c : Command) (l : Timeline) (deadline : Nat),
      deadline? l.start c.timeout = some deadline →
      ∃ t ≤ deadline + 2 * pollInterval, ∃ result,
        (c.run l.surroundings).ending = .returned t result ∧
          (¬ (l.Over (deadline + 2 * pollInterval) ∧
              (c.input = none ∨ l.Fed (deadline + 2 * pollInterval))) →
            result = .error (.timeout c.line c.timeout)) := by
  intro h
  have hdeadline : deadline? heldInput.start holdInput.timeout = some 500000000 := rfl
  obtain ⟨t, ht, result, hreturned, -⟩ := h holdInput heldInput _ hdeadline
  rcases run_cases hdeadline with ⟨hopen, -⟩ | ⟨u, -, -, output, hending⟩
  · exact absurd heldInput_over hopen
  · have hinput : holdInput.input.isSome := rfl
    have hfed : heldInput.fed = some 2000000000 := rfl
    rw [if_pos hinput, joinWriter_of_fed hfed, hreturned] at hending
    obtain ⟨rfl, -⟩ := Ending.returned.inj hending
    have hlate := Nat.le_trans (Nat.le_max_right u 2000000000) ht
    exact absurd hlate (by decide)

end Timeline

end Lintmark
