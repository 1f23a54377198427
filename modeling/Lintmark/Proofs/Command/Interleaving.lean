/-
Where the threads of a run get, in whatever order they go on.  As long as nothing goes
wrong the caller comes to return both outputs, after boundedly many moves.
-/
import Lintmark.Proofs.Command.Threads

namespace Lintmark

def Draining.Fine : Draining → Prop
  | reading _ _ => True
  | sent (.ok _) => True
  | sent (.error _) => False
  | broken => False

def Feeding.Fine : Feeding → Prop
  | writing => True
  | done result => Accepted result
  | broken => False

def Caller.Fine : Caller → Prop
  | waiting => True
  | collecting _ _ => True
  | returned (.ok _) => True
  | returned (.error _) => False

theorem Feeding.Fine.outcome?_eq {feeding : Feeding} {output : CommandOutput}
    {result : Except CommandError CommandOutput} (h : feeding.Fine)
    (houtcome : feeding.outcome? output = some result) : result = .ok output := by
  cases feeding with
  | writing => cases houtcome
  | broken => exact h.elim
  | done fed => exact (Option.some.inj houtcome).symm.trans (Accepted.afterFeeding h output)

namespace Threads

variable {c : Command} {exit : Option Int} {content : Stream → List UInt8}
  {s s' : Threads}

/-- Nothing has gone wrong so far. -/
structure Fine (s : Threads) : Prop where
  readers : ∀ stream, (s.readers stream).Fine
  feeding : s.feeding.Fine
  caller : s.caller.Fine

theorem fine_start : (start c content).Fine where
  readers _ := trivial
  feeding := by
    rw [start]
    split <;> trivial
  caller := trivial

/-- Nothing goes wrong in a step. -/
theorem Step.fine (hstep : Step exit s s') (haccounted : s.Accounted exit content)
    (h : s.Fine) : s'.Fine := by
  have hreaders (stream : Stream) (d : Draining) (hd : d.Fine) :
      ∀ stream', ((s.withReader stream d).readers stream').Fine :=
    forall_withReader (P := fun _ d => d.Fine) h.readers hd
  cases hstep with
  | read => exact ⟨hreaders _ _ trivial, h.feeding, h.caller⟩
  | send => exact ⟨hreaders _ _ trivial, h.feeding, h.caller⟩
  | feed _ haccepted => exact ⟨h.readers, haccepted, h.caller⟩
  | seeEnd => exact ⟨h.readers, h.feeding, trivial⟩
  | @take count kept message rest hcaller hchannel =>
      refine ⟨h.readers, h.feeding, ?_⟩
      have hsent := haccounted.queued message (hchannel ▸ List.mem_cons_self)
      have hfine := h.readers message.1
      rw [hsent] at hfine
      obtain ⟨stream, result⟩ := message
      cases result with
      | ok bytes => trivial
      | error cause => exact hfine.elim
  | finish hcaller hfed =>
      refine ⟨h.readers, h.feeding, ?_⟩
      rw [h.feeding.outcome?_eq hfed]
      trivial

/-- A run in which nothing goes wrong goes on until the caller returns. -/
theorem exists_step (haccounted : s.Accounted exit content) (h : s.Fine)
    (hcaller : ∀ result, s.caller ≠ .returned result) : ∃ s', Step exit s s' := by
  cases hat : s.caller with
  | waiting => exact ⟨_, .seeEnd hat⟩
  | returned result => exact absurd hat (hcaller result)
  | collecting count kept =>
      cases count with
      | zero =>
          cases hfeeding : s.feeding with
          | writing =>
              have haccepted : Accepted (.ok ()) := trivial
              exact ⟨_, .feed hfeeding haccepted⟩
          | done result => exact ⟨_, .finish hat (by rw [hfeeding]; rfl)⟩
          | broken =>
              have hfine := h.feeding
              rw [hfeeding] at hfine
              exact hfine.elim
      | succ count =>
          cases hchannel : s.channel with
          | cons message rest => exact ⟨_, .take hat hchannel⟩
          | nil =>
              -- Somebody is still reading, as nobody has broken down.
              by_cases hgone : ∀ stream got left, s.readers stream ≠ .reading got left
              · obtain ⟨stream, hbroken⟩ :=
                  haccounted.exists_broken ⟨⟨count, kept, hat⟩, hchannel, hgone⟩
                have hfine := h.readers stream
                rw [hbroken] at hfine
                exact hfine.elim
              · simp only [not_forall, ne_eq, not_not] at hgone
                obtain ⟨stream, got, left, hreader⟩ := hgone
                cases left with
                | nil => exact ⟨_, .send hreader⟩
                | cons byte left =>
                    have hchunk : [byte] ≠ [] := List.cons_ne_nil byte []
                    exact ⟨_, .read hreader hchunk⟩

end Threads

/-- How many moves a reader has left, at most. -/
def Draining.stepsLeft : Draining → Nat
  | reading _ left => left.length + 2
  | sent _ => 0
  | broken => 0

def Feeding.stepsLeft : Feeding → Nat
  | writing => 1
  | done _ => 0
  | broken => 0

/-- How many moves the caller has left, those aside in which it takes a message. -/
def Caller.stepsLeft : Caller → Nat
  | waiting => 2
  | collecting _ _ => 1
  | returned _ => 0

namespace Threads

variable {c : Command} {exit : Option Int} {content : Stream → List UInt8}
  {s s' : Threads}

/-- How many moves are left, at most. -/
def stepsLeft (s : Threads) : Nat :=
  (s.readers .stdout).stepsLeft + (s.readers .stderr).stepsLeft + s.channel.length +
    s.feeding.stepsLeft + s.caller.stepsLeft

theorem stepsLeft_start_le (c : Command) (content : Stream → List UInt8) :
    (start c content).stepsLeft ≤
      (content .stdout).length + (content .stderr).length + 7 := by
  have hfeeding : (start c content).feeding.stepsLeft ≤ 1 := by
    rw [start]
    split
    · exact Nat.le_refl 1
    · exact Nat.zero_le 1
  have hstdout : ((start c content).readers .stdout).stepsLeft =
      (content .stdout).length + 2 := rfl
  have hstderr : ((start c content).readers .stderr).stepsLeft =
      (content .stderr).length + 2 := rfl
  have hcaller : (start c content).caller.stepsLeft = 2 := rfl
  have hchannel : (start c content).channel.length = 0 := rfl
  rw [stepsLeft]
  omega

theorem stepsLeft_withReader (s : Threads) (stream : Stream) (d : Draining) :
    (s.withReader stream d).stepsLeft + (s.readers stream).stepsLeft =
      s.stepsLeft + d.stepsLeft := by
  have hself := readers_withReader_self s stream d
  have hchannel : (s.withReader stream d).channel = s.channel := rfl
  have hfeeding : (s.withReader stream d).feeding = s.feeding := rfl
  have hcaller : (s.withReader stream d).caller = s.caller := rfl
  rw [stepsLeft, hchannel, hfeeding, hcaller]
  cases stream with
  | stdout =>
      have hother : Stream.stderr ≠ .stdout := by decide
      rw [hself, readers_withReader_of_ne hother, stepsLeft]
      omega
  | stderr =>
      have hother : Stream.stdout ≠ .stderr := by decide
      rw [hself, readers_withReader_of_ne hother, stepsLeft]
      omega

theorem stepsLeft_sending (s : Threads) (stream : Stream)
    (result : Except SystemError (List UInt8)) :
    (s.sending stream result).stepsLeft + (s.readers stream).stepsLeft =
      s.stepsLeft + 1 := by
  have hreader := s.stepsLeft_withReader stream (.sent result)
  have hchannel : (s.sending stream result).stepsLeft =
      (s.withReader stream (.sent result)).stepsLeft + 1 := by
    simp only [stepsLeft, sending, withReader, List.length_append, List.length_singleton]
    omega
  rw [hchannel, Nat.add_right_comm, hreader]
  rfl

theorem Caller.stepsLeft_taking_le (count : Nat) (kept : Stream → List UInt8)
    (message : Message) : (Caller.taking count kept message).stepsLeft ≤ 1 := by
  obtain ⟨stream, result⟩ := message
  cases result with
  | ok bytes => exact Nat.le_refl 1
  | error cause => exact Nat.zero_le 1

/-- Every step leaves fewer moves. -/
theorem Step.stepsLeft_lt (hstep : Step exit s s') : s'.stepsLeft < s.stepsLeft := by
  cases hstep with
  | @read stream got chunk left hreader hchunk =>
      have hreads := s.stepsLeft_withReader stream (.reading (got ++ chunk) left)
      have hpositive := List.length_pos_of_ne_nil hchunk
      rw [hreader, Draining.stepsLeft, Draining.stepsLeft, List.length_append] at hreads
      omega
  | @send stream got hreader =>
      have hsends := s.stepsLeft_sending stream (.ok got)
      rw [hreader, Draining.stepsLeft, List.length_nil] at hsends
      omega
  | feed hfeeding _ =>
      simp only [stepsLeft, hfeeding, Feeding.stepsLeft]
      omega
  | seeEnd hcaller =>
      simp only [stepsLeft, hcaller, Caller.stepsLeft]
      omega
  | @take count kept message rest hcaller hchannel =>
      have htaking := Caller.stepsLeft_taking_le count kept message
      have hcollecting : s.caller.stepsLeft = 1 := by rw [hcaller, Caller.stepsLeft]
      simp only [stepsLeft, hcollecting, hchannel, List.length_cons]
      omega
  | finish hcaller _ =>
      simp only [stepsLeft, hcaller, Caller.stepsLeft]
      omega

theorem Run.add_stepsLeft_le {n : Nat} (h : Run (Step exit) s n s') :
    n + s'.stepsLeft ≤ s.stepsLeft := by
  induction h with
  | refl => exact Nat.le_of_eq (Nat.zero_add _)
  | step _ hstep ih =>
      have hlt := hstep.stepsLeft_lt
      omega

/-- A step, or something that goes wrong. -/
def Move (c : Command) (exit : Option Int) (s s' : Threads) : Prop :=
  Step exit s s' ∨ Fault c s s'

theorem Run.accounted {n : Nat} (h : Run (Move c exit) (start c content) n s) :
    s.Accounted exit content := by
  refine h.keeps ?_ accounted_start
  intro s s' haccounted hmove
  rcases hmove with hstep | hfault
  · exact hstep.accounted haccounted
  · exact hfault.accounted haccounted

theorem Run.accounted_and_fine {n : Nat} (h : Run (Step exit) (start c content) n s) :
    s.Accounted exit content ∧ s.Fine := by
  refine h.keeps (P := fun s => s.Accounted exit content ∧ s.Fine) ?_
    ⟨accounted_start, fine_start⟩
  intro s s' hboth hstep
  exact ⟨hstep.accounted hboth.1, hstep.fine hboth.1 hboth.2⟩

/-- The caller has returned both outputs, or somebody can go on. -/
theorem Accounted.returns_or_goes_on (h : s.Accounted exit content) (hfine : s.Fine) :
    s.caller = .returned (.ok (.ofBytes exit (content .stdout) (content .stderr))) ∧
        s.taken.Perm [.stdout, .stderr] ∨
      (∀ result, s.caller ≠ .returned result) ∧ ∃ s', Step exit s s' := by
  by_cases hreturned : ∃ result, s.caller = .returned result
  · obtain ⟨result, hresult⟩ := hreturned
    cases result with
    | ok output =>
        obtain ⟨rfl, htaken⟩ := h.returned output hresult
        exact Or.inl ⟨hresult, htaken⟩
    | error e =>
        have hcaller := hfine.caller
        rw [hresult] at hcaller
        exact hcaller.elim
  · rw [not_exists] at hreturned
    exact Or.inr ⟨hreturned, exists_step h hfine hreturned⟩

end Threads

/-- A run captures both outputs, whatever comes first.  If the child is seen to end, the
readers deliver by the deadline and the thread that feeds the child comes back with
nothing wrong, the run returns what was written, and for this the caller has received
one report of each output.  Readers may report errors, be late or not report at all, and
still the caller does not find nobody left unless one breaks down.

The same holds of the threads in any order: without a fault they come to that result
after boundedly many moves, having taken one message of each output.  With faults no
message is taken twice, and what is returned as output is still that result. -/
theorem Command.run_captures_outputs (c : Command) (content : Stream → List UInt8)
    (exit : Option Int) :
    let output := CommandOutput.ofBytes exit (content .stdout) (content .stderr)
    (∀ (s : Surroundings) (deadline : Nat),
      deadline? s.start c.timeout = some deadline → s.Delivers content deadline exit →
      (c.input.isSome → s.Feeds) →
      (∃ t, (c.run s).ending = .returned t (.ok output)) ∧
        ∃ streams : List Stream, streams.Perm [.stdout, .stderr] ∧
          List.Forall₂ (Received.Brings content) streams
            (receipts deadline 2 s.readers
              (waitUntil s.poll s.lag deadline 0 s.start).time)) ∧
    (∀ (readers : List Reader) (deadline now : Nat),
      (readers.map Reader.stream).Perm [.stdout, .stderr] →
      (∀ r ∈ readers, ∀ t, r.fate ≠ .breaks t) →
      ∀ received ∈ receipts deadline 2 readers now, ¬ received.IsDisconnected) ∧
    (∀ n s, Threads.Run (Threads.Step exit) (.start c content) n s →
      n ≤ (content .stdout).length + (content .stderr).length + 7 ∧
        (s.caller = .returned (.ok output) ∧ s.taken.Perm [.stdout, .stderr] ∨
          (∀ result, s.caller ≠ .returned result) ∧ ∃ s', Threads.Step exit s s')) ∧
    ∀ n s, Threads.Run (Threads.Move c exit) (.start c content) n s →
      (∀ stream, s.taken.count stream ≤ 1) ∧
        (∀ output', s.caller = .returned (.ok output') → output' = output) ∧
        ((∀ stream, s.readers stream ≠ .broken) → ¬ s.Disconnected) := by
  intro output
  refine ⟨?_, ?_, ?_, ?_⟩
  · intro s deadline hdeadline hdelivers hfeeds
    obtain ⟨hnodup, hlength⟩ := streams_of_perm hdelivers.streams
    obtain ⟨streams, hperm, hbrings⟩ := receipts_bring _ hnodup hlength hdelivers.brings
    exact ⟨c.run_of_delivers hdeadline hdelivers hfeeds, streams,
      hperm.trans hdelivers.streams, hbrings⟩
  · intro readers deadline now hstreams hwhole
    obtain ⟨hnodup, hlength⟩ := streams_of_perm hstreams
    exact not_isDisconnected hnodup hlength hwhole
  · intro n s hrun
    obtain ⟨haccounted, hfine⟩ := hrun.accounted_and_fine
    have hbound := hrun.add_stepsLeft_le
    have hstart := Threads.stepsLeft_start_le c content
    exact ⟨by omega, haccounted.returns_or_goes_on hfine⟩
  · intro n s hrun
    have haccounted := hrun.accounted
    refine ⟨haccounted.count_taken_le, fun output' hreturned => ?_, fun hwhole hgone => ?_⟩
    · exact (haccounted.returned output' hreturned).1
    · obtain ⟨stream, hbroken⟩ := haccounted.exists_broken hgone
      exact hwhole stream hbroken

/-- A text with a byte that is no UTF-8, and another text. -/
def twoOutputs : Stream → List UInt8
  | .stdout => [111, 117, 255]
  | .stderr => [101]

/-- A child that ends after one sleep and did not want its input.  Its second output comes
first. -/
def lateStdout : Surroundings where
  start := 0
  spawn := .ok ()
  hasPipes := true
  poll := fun k _ => if k = 0 then .running else .ended (some 3)
  lag := fun _ => 0
  readers := [
    ⟨.stdout, .reports 30000000 (.ok (twoOutputs .stdout))⟩,
    ⟨.stderr, .reports 4000000 (.ok (twoOutputs .stderr))⟩]
  writer := .reports 40000000 (.error .brokenPipe)

def fedCommand : Command where
  executable := ⟨"cat"⟩
  input := some "x"
  timeout := .ofSecs 1

theorem lateStdout_delivers : lateStdout.Delivers twoOutputs 1000000000 (some 3) where
  spawn := rfl
  pipes := rfl
  ended := by
    rw [waitUntil, waitUntil]
    rfl
  streams := .refl _
  brings := by
    intro r hr
    rcases List.mem_pair.mp hr with rfl | rfl
    · exact ⟨30000000, by decide, rfl⟩
    · exact ⟨4000000, by decide, rfl⟩

/-- Both readers are busy when the child ends, and the second one sends first. -/
theorem exists_run_lateStdout :
    ∃ s, Threads.Run (Threads.Step (some 3)) (.start fedCommand twoOutputs) 10 s ∧
      s.taken = [.stdout, .stderr] ∧ ∃ result, s.caller = .returned result := by
  have hstart : Threads.Run (Threads.Step (some 3)) (.start fedCommand twoOutputs) 0
      (.start fedCommand twoOutputs) := .refl
  have hchunk := hstart.step (.read
    (rfl : Threads.readers _ .stdout = .reading [] ([111] ++ [117, 255]))
    (List.cons_ne_nil _ _))
  have hstderr := (hchunk.step (.read
    (rfl : Threads.readers _ .stderr = .reading [] ([101] ++ []))
    (List.cons_ne_nil _ _))).step (.send
    (rfl : Threads.readers _ .stderr = .reading [101] []))
  have hended := (hstderr.step (.seeEnd rfl)).step (.take rfl rfl)
  have hstdout := (hended.step (.read
    (rfl : Threads.readers _ .stdout = .reading [111] ([117, 255] ++ []))
    (List.cons_ne_nil _ _))).step (.send
    (rfl : Threads.readers _ .stdout = .reading [111, 117, 255] []))
  have haccepted : Accepted (.error .brokenPipe) := rfl
  have hfed := (hstdout.step (.feed rfl haccepted)).step (.take rfl rfl)
  exact ⟨_, hfed.step (.finish rfl rfl), rfl, _, rfl⟩

/-- The outputs are not mixed up, and the byte that is no UTF-8 is replaced.  When a read
fails there is still a message to wait for. -/
theorem run_captures_outputs_of_late_stdout :
    (∃ t, (fedCommand.run lateStdout).ending =
      .returned t (.ok ⟨"ou\uFFFD", "e", some 3⟩)) ∧
    (∀ received ∈ receipts 1000000000 2 lateStdout.readers 0, ¬ received.IsDisconnected) ∧
    (∃ s, Threads.Run (Threads.Step (some 3)) (.start fedCommand twoOutputs) 10 s ∧
      s.caller = .returned (.ok ⟨"ou\uFFFD", "e", some 3⟩) ∧
      s.taken = [.stdout, .stderr]) ∧
    ∃ s, Threads.Run (Threads.Move fedCommand (some 3)) (.start fedCommand twoOutputs) 1 s ∧
      s.readers .stderr = .sent (.error (.code 5)) ∧ ¬ s.Disconnected := by
  have houtput : CommandOutput.ofBytes (some 3) (twoOutputs .stdout)
      (twoOutputs .stderr) = ⟨"ou\uFFFD", "e", some 3⟩ := by decide
  obtain ⟨hruns, hpresent, hsteps, hmoves⟩ :=
    Command.run_captures_outputs fedCommand twoOutputs (some 3)
  rw [houtput] at hruns hsteps
  refine ⟨?_, ?_, ?_, ?_⟩
  · have hfeeds : lateStdout.Feeds := ⟨_, _, rfl, rfl⟩
    exact (hruns lateStdout 1000000000 rfl lateStdout_delivers fun _ => hfeeds).1
  · apply hpresent lateStdout.readers 1000000000 0 (.refl _)
    intro r hr t hbreaks
    obtain ⟨u, -, hreports⟩ := lateStdout_delivers.brings r hr
    cases hbreaks.symm.trans hreports
  · obtain ⟨s, hrun, htaken, result, hresult⟩ := exists_run_lateStdout
    obtain ⟨-, ⟨hreturned, -⟩ | ⟨hnot, -⟩⟩ := hsteps 10 s hrun
    · exact ⟨s, hrun, hreturned, htaken⟩
    · exact absurd hresult (hnot result)
  · have hstart : Threads.Run (Threads.Move fedCommand (some 3))
        (.start fedCommand twoOutputs) 0 (.start fedCommand twoOutputs) := .refl
    have hfault := hstart.step (.inr (.readFails (.code 5)
      (rfl : Threads.readers _ .stderr = .reading [] [101])))
    refine ⟨_, hfault, rfl, (hmoves 1 _ hfault).2.2 ?_⟩
    intro stream hbroken
    cases stream with
    | stdout => cases hbroken
    | stderr => cases hbroken

end Lintmark
