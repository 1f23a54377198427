/-
What is collected when every reader delivers in time: one report for each output, in
the order in which they come, and each output under its own name.
-/
import Lintmark.Proofs.Command.Waiting
import Lintmark.Proofs.Command.Collecting

namespace Lintmark

variable {readers : List Reader} {r : Reader} {deadline now : Nat}
  {content : Stream → List UInt8}

/-- What the caller gets, one wait after another.  Only an output that is complete lets it
go on. -/
def receipts (deadline : Nat) : Nat → List Reader → Nat → List Received
  | 0, _, _ => []
  | count + 1, readers, now =>
    match receive readers now (window deadline now) with
    | .report t stream (.ok bytes) =>
      .report t stream (.ok bytes) ::
        receipts deadline count (readers.filter (·.stream != stream)) t
    | last => [last]

/-- What collecting comes to by what the caller gets. -/
def Collected.ofReceipts : Nat → List UInt8 → List UInt8 → List Received → Collected
  | now, out, err, [] => .outputs now out err
  | _, out, err, .report t stream (.ok bytes) :: rest =>
    ofReceipts t (if stream = .stdout then bytes else out)
      (if stream = .stderr then bytes else err) rest
  | _, _, _, .report t _ (.error cause) :: _ => .failed t cause
  | _, _, _, .disconnected t :: _ => .failed t (.other "Output reader thread stopped")
  | _, _, _, .timedOut t :: _ => .expired t

theorem collect_eq_ofReceipts (count : Nat) (out err : List UInt8) :
    collect deadline count readers now out err =
      .ofReceipts now out err (receipts deadline count readers now) := by
  induction count generalizing readers now out err with
  | zero => rfl
  | succ count ih =>
      rw [collect_succ, receipts]
      cases receive readers now (window deadline now) with
      | report t stream result =>
          cases result with
          | ok bytes => exact ih _ _
          | error cause => rfl
      | disconnected t => rfl
      | timedOut t => rfl

/-- The caller learns that nobody is left. -/
def Received.IsDisconnected : Received → Prop
  | .disconnected _ => True
  | _ => False

def Received.Brings (content : Stream → List UInt8) (stream : Stream) :
    Received → Prop
  | .report _ stream' (.ok bytes) => stream' = stream ∧ bytes = content stream
  | _ => False

/-- The reader has delivered the whole of its output by the deadline. -/
def Reader.Brings (content : Stream → List UInt8) (deadline : Nat) (r : Reader) :
    Prop :=
  ∃ t ≤ deadline, r.fate = .reports t (.ok (content r.stream))

/-- As long as somebody has something to deliver, the next wait gets it. -/
theorem receive_of_brings (now : Nat) (hreaders : readers ≠ [])
    (hbrings : ∀ r ∈ readers, r.Brings content deadline) :
    ∃ r ∈ readers, ∃ t, receive readers now (window deadline now) =
      .report t r.stream (.ok (content r.stream)) := by
  obtain ⟨head, hhead⟩ := List.exists_mem_of_ne_nil readers hreaders
  obtain ⟨t', ht', hfate'⟩ := hbrings head hhead
  rcases receive_cases readers now (window deadline now) with
    ⟨r, hr, t, result, hfate, -, hreceive⟩ | ⟨-, -, hbreaks, -⟩ | ⟨hsilent, -⟩
  · obtain ⟨u, -, hbrought⟩ := hbrings r hr
    obtain ⟨-, rfl⟩ := Fate.reports.inj (hfate.symm.trans hbrought)
    exact ⟨r, hr, _, hreceive⟩
  · obtain ⟨b, hbreak⟩ := hbreaks head hhead
    cases hbreak.symm.trans hfate'
  · have hlate := hsilent head hhead t' _ hfate'
    have hwindow := le_add_window deadline now
    omega

theorem perm_others (hstreams : (readers.map Reader.stream).Nodup)
    (hr : r ∈ readers) :
    (r.stream :: (r.others readers).map Reader.stream).Perm
      (readers.map Reader.stream) := by
  have hothers : (r.others readers).map Reader.stream =
      (readers.map Reader.stream).erase r.stream := by
    rw [hstreams.erase_eq_filter, List.filter_map]
    rfl
  rw [hothers]
  exact (List.perm_cons_erase (List.mem_map_of_mem hr)).symm

/-- There is one report for each output, and it brings the whole of it. -/
theorem receipts_bring {count : Nat} (now : Nat)
    (hstreams : (readers.map Reader.stream).Nodup) (hlength : readers.length = count)
    (hbrings : ∀ r ∈ readers, r.Brings content deadline) :
    ∃ streams : List Stream, streams.Perm (readers.map Reader.stream) ∧
      List.Forall₂ (Received.Brings content) streams
        (receipts deadline count readers now) := by
  induction count generalizing readers now with
  | zero =>
      obtain rfl := List.length_eq_zero_iff.mp hlength
      exact ⟨[], .refl _, .nil⟩
  | succ count ih =>
      have hreaders : readers ≠ [] := List.ne_nil_of_length_eq_add_one hlength
      obtain ⟨r, hr, t, hreceive⟩ := receive_of_brings now hreaders hbrings
      have hleft := length_others hstreams hr
      obtain ⟨streams, hperm, hbring⟩ := ih t (nodup_others hstreams)
        (Nat.add_right_cancel (hleft.trans hlength))
        fun r' hr' => hbrings r' (List.mem_of_mem_filter hr')
      refine ⟨r.stream :: streams, (hperm.cons _).trans (perm_others hstreams hr), ?_⟩
      rw [receipts, hreceive]
      exact .cons ⟨rfl, rfl⟩ hbring

/-- Reports that bring outputs fill in these outputs and no others. -/
theorem ofReceipts_of_brings {streams : List Stream} {received : List Received}
    (h : List.Forall₂ (Received.Brings content) streams received)
    (now : Nat) (out err : List UInt8) :
    ∃ t, Collected.ofReceipts now out err received =
      .outputs t (if .stdout ∈ streams then content .stdout else out)
        (if .stderr ∈ streams then content .stderr else err) := by
  induction h generalizing now out err with
  | nil => exact ⟨now, rfl⟩
  | @cons stream received streams rest hbrings _ ih =>
      cases received with
      | disconnected t => exact hbrings.elim
      | timedOut t => exact hbrings.elim
      | report t stream' result =>
          cases result with
          | error cause => exact hbrings.elim
          | ok bytes =>
              obtain ⟨rfl, rfl⟩ := hbrings
              obtain ⟨u, hu⟩ := ih t
                (if stream' = .stdout then content stream' else out)
                (if stream' = .stderr then content stream' else err)
              refine ⟨u, ?_⟩
              rw [Collected.ofReceipts, hu]
              cases stream' <;> simp

/-- Nobody is missing as long as no reader breaks down. -/
theorem not_isDisconnected {count : Nat}
    (hstreams : (readers.map Reader.stream).Nodup) (hlength : readers.length = count)
    (hwhole : ∀ r ∈ readers, ∀ t, r.fate ≠ .breaks t) :
    ∀ received ∈ receipts deadline count readers now, ¬ received.IsDisconnected := by
  induction count generalizing readers now with
  | zero =>
      intro received hreceived
      cases hreceived
  | succ count ih =>
      have hreaders : readers ≠ [] := List.ne_nil_of_length_eq_add_one hlength
      obtain ⟨head, hhead⟩ := List.exists_mem_of_ne_nil readers hreaders
      rw [receipts]
      rcases receive_cases readers now (window deadline now) with
        ⟨r, hr, t, result, -, -, hreceive⟩ | ⟨t, -, hbreaks, -⟩ | ⟨-, hreceive⟩
      · rw [hreceive]
        cases result with
        | ok bytes =>
            have hleft := length_others hstreams hr
            refine List.forall_mem_cons.mpr ⟨id, ?_⟩
            apply ih (nodup_others hstreams)
              (Nat.add_right_cancel (hleft.trans hlength))
            intro r' hr'
            exact hwhole r' (List.mem_of_mem_filter hr')
        | error cause => exact List.forall_mem_singleton.mpr id
      · obtain ⟨b, hbreak⟩ := hbreaks head hhead
        exact absurd hbreak (hwhole head hhead b)
      · rw [hreceive]
        exact List.forall_mem_singleton.mpr id

/-- What the caller returns when the child has been fed with this result. -/
def CommandOutput.afterFeeding (output : CommandOutput) :
    Except SystemError Unit → Except CommandError CommandOutput
  | .ok () => .ok output
  | .error cause => if cause.isBrokenPipe then .ok output else .error (.io cause)

theorem joinWriter_reports (t : Nat) (result : Except SystemError Unit)
    (output : CommandOutput) :
    joinWriter (.reports t result) now output =
      .returned (max now t) (output.afterFeeding result) := by
  cases result with
  | ok => rfl
  | error cause =>
      rw [joinWriter, CommandOutput.afterFeeding]
      split <;> rfl

/-- The child took its input, or as much of it as it wanted. -/
def Accepted : Except SystemError Unit → Prop
  | .ok () => True
  | .error cause => cause.isBrokenPipe

theorem Accepted.afterFeeding {result : Except SystemError Unit}
    (h : Accepted result) (output : CommandOutput) :
    output.afterFeeding result = .ok output := by
  cases result with
  | ok => rfl
  | error cause => exact if_pos h

/-- A child that is seen to end, with readers that deliver these outputs by the
deadline. -/
structure Surroundings.Delivers (s : Surroundings) (content : Stream → List UInt8)
    (deadline : Nat) (exit : Option Int) : Prop where
  spawn : s.spawn = .ok ()
  pipes : s.hasPipes = true
  ended : (waitUntil s.poll s.lag deadline 0 s.start).result = .ended exit
  streams : (s.readers.map Reader.stream).Perm [.stdout, .stderr]
  brings : ∀ r ∈ s.readers, r.Brings content deadline

/-- The thread that feeds the child comes back, and nothing is wrong. -/
def Surroundings.Feeds (s : Surroundings) : Prop :=
  ∃ t result, s.writer = .reports t result ∧ Accepted result

/-- One reader for each output. -/
theorem streams_of_perm (h : (readers.map Reader.stream).Perm [.stdout, .stderr]) :
    (readers.map Reader.stream).Nodup ∧ readers.length = 2 := by
  have hlength := h.length_eq
  rw [List.length_map] at hlength
  exact ⟨h.nodup_iff.mpr (by decide), hlength⟩

/-- The outputs are collected, whichever comes first. -/
theorem collect_of_brings (out err : List UInt8)
    (hstreams : (readers.map Reader.stream).Perm [.stdout, .stderr])
    (hbrings : ∀ r ∈ readers, r.Brings content deadline) :
    ∃ t, collect deadline 2 readers now out err =
      .outputs t (content .stdout) (content .stderr) := by
  obtain ⟨hnodup, hlength⟩ := streams_of_perm hstreams
  obtain ⟨streams, hperm, hbring⟩ := receipts_bring now hnodup hlength hbrings
  have hmem (stream : Stream) : stream ∈ streams := by
    rw [(hperm.trans hstreams).mem_iff]
    cases stream <;> decide
  obtain ⟨t, ht⟩ := ofReceipts_of_brings hbring now out err
  rw [if_pos (hmem .stdout), if_pos (hmem .stderr)] at ht
  exact ⟨t, (collect_eq_ofReceipts 2 out err).trans ht⟩

/-- A run whose outputs are delivered in time returns them. -/
theorem Command.run_of_delivers {c : Command} {s : Surroundings} {exit : Option Int}
    (hdeadline : deadline? s.start c.timeout = some deadline)
    (h : s.Delivers content deadline exit) (hfeeds : c.input.isSome → s.Feeds) :
    ∃ t, (c.run s).ending =
      .returned t (.ok (.ofBytes exit (content .stdout) (content .stderr))) := by
  rcases c.run_of_spawn s hdeadline h.spawn h.pipes with
    ⟨exit', hended, -, hending⟩ | ⟨hexpired, -, -⟩ | ⟨cause, hfailed, -, -⟩
  · obtain rfl := Waited.ended.inj (hended.symm.trans h.ended)
    obtain ⟨t, hcollect⟩ := collect_of_brings [] [] h.streams h.brings
    rw [hending, c.finish_of_outputs exit' hcollect]
    split
    · rename_i hinput
      obtain ⟨u, result, hwriter, haccepted⟩ := hfeeds hinput
      rw [hwriter, joinWriter_reports, haccepted.afterFeeding]
      exact ⟨_, rfl⟩
    · exact ⟨t, rfl⟩
  · cases hexpired.symm.trans h.ended
  · cases hfailed.symm.trans h.ended

end Lintmark
