/-
The threads of a run as they interleave: two readers with one channel, the thread that
feeds the child, and the caller.  The caller counts messages and not outputs, so what
it returns is right because each reader sends once.
-/
import Mathlib.Logic.Function.Basic
import Lintmark.Proofs.Command.Capture

namespace Lintmark

inductive Draining where
  /-- It has read these bytes, and those are to come before the end. -/
  | reading (got left : List UInt8)
  /-- It has sent this, and is gone. -/
  | sent (result : Except SystemError (List UInt8))
  | broken

inductive Feeding where
  | writing
  | done (result : Except SystemError Unit)
  | broken

inductive Caller where
  | waiting
  /-- It wants so many more messages.  The outputs are kept in their places. -/
  | collecting (count : Nat) (kept : Stream → List UInt8)
  | returned (result : Except CommandError CommandOutput)

/-- What a reader sends. -/
abbrev Message := Stream × Except SystemError (List UInt8)

/-- The threads of a run, and what is between them. -/
structure Threads where
  readers : Stream → Draining
  /-- Messages that are sent and not yet taken. -/
  channel : List Message
  feeding : Feeding
  caller : Caller
  taken : List Stream

def Caller.taking (count : Nat) (kept : Stream → List UInt8) : Message → Caller
  | (stream, .ok bytes) => .collecting count (Function.update kept stream bytes)
  | (_, .error cause) => .returned (.error (.io cause))

/-- What the caller returns when the thread that feeds the child is gone. -/
def Feeding.outcome? (output : CommandOutput) :
    Feeding → Option (Except CommandError CommandOutput)
  | writing => none
  | done result => some (output.afterFeeding result)
  | broken => some (.error (.io (.other "Stdin writer thread panicked")))

namespace Threads

/-- The run of a command at its start, when these bytes will come from its outputs.
Without input nobody feeds the child. -/
def start (c : Command) (content : Stream → List UInt8) : Threads where
  readers stream := .reading [] (content stream)
  channel := []
  feeding := if c.input.isSome then .writing else .done (.ok ())
  caller := .waiting
  taken := []

def withReader (s : Threads) (stream : Stream) (d : Draining) : Threads :=
  { s with readers := Function.update s.readers stream d }

/-- The reader of an output sends what it has, and is gone. -/
def sending (s : Threads) (stream : Stream) (result : Except SystemError (List UInt8)) :
    Threads :=
  { s.withReader stream (.sent result) with channel := s.channel ++ [(stream, result)] }

/-- The caller wants a message, there is none, and nobody is left to send one. -/
structure Disconnected (s : Threads) : Prop where
  wants : ∃ count kept, s.caller = .collecting (count + 1) kept
  empty : s.channel = []
  gone : ∀ stream got left, s.readers stream ≠ .reading got left

/-- Any thread does the next thing, and nothing goes wrong. -/
inductive Step (exit : Option Int) (s : Threads) : Threads → Prop where
  | read {stream : Stream} {got chunk left : List UInt8}
      (hreader : s.readers stream = .reading got (chunk ++ left)) (hchunk : chunk ≠ []) :
      Step exit s (s.withReader stream (.reading (got ++ chunk) left))
  | send {stream : Stream} {got : List UInt8}
      (hreader : s.readers stream = .reading got []) :
      Step exit s (s.sending stream (.ok got))
  | feed {result : Except SystemError Unit} (hfeeding : s.feeding = .writing)
      (haccepted : Accepted result) : Step exit s { s with feeding := .done result }
  | seeEnd (hcaller : s.caller = .waiting) :
      Step exit s { s with caller := .collecting 2 fun _ => [] }
  | take {count : Nat} {kept : Stream → List UInt8} {message : Message}
      {rest : List Message} (hcaller : s.caller = .collecting (count + 1) kept)
      (hchannel : s.channel = message :: rest) :
      Step exit s { s with
        channel := rest
        caller := .taking count kept message
        taken := message.1 :: s.taken }
  | finish {kept : Stream → List UInt8} {result : Except CommandError CommandOutput}
      (hcaller : s.caller = .collecting 0 kept)
      (hfed : s.feeding.outcome? (.ofBytes exit (kept .stdout) (kept .stderr)) =
        some result) :
      Step exit s { s with caller := .returned result }

/-- Something goes wrong, or takes too long. -/
inductive Fault (c : Command) (s : Threads) : Threads → Prop where
  | readFails {stream : Stream} {got left : List UInt8} (cause : SystemError)
      (hreader : s.readers stream = .reading got left) :
      Fault c s (s.sending stream (.error cause))
  | readerBreaks {stream : Stream} {got left : List UInt8}
      (hreader : s.readers stream = .reading got left) :
      Fault c s (s.withReader stream .broken)
  | feedFails (cause : SystemError) (hfeeding : s.feeding = .writing) :
      Fault c s { s with feeding := .done (.error cause) }
  | writerBreaks (hfeeding : s.feeding = .writing) :
      Fault c s { s with feeding := .broken }
  | waitFails (cause : SystemError) (hcaller : s.caller = .waiting) :
      Fault c s { s with caller := .returned (.error (.io cause)) }
  | expires (hcaller : s.caller = .waiting ∨
        s.channel = [] ∧ ∃ count kept, s.caller = .collecting (count + 1) kept) :
      Fault c s { s with caller := .returned (.error (.timeout c.line c.timeout)) }
  | disconnects (h : s.Disconnected) :
      Fault c s { s with
        caller := .returned (.error (.io (.other "Output reader thread stopped"))) }

/-- Moves one after another, so many of them. -/
inductive Run (move : Threads → Threads → Prop) (s : Threads) : Nat → Threads → Prop where
  | refl : Run move s 0 s
  | step {n : Nat} {s' s'' : Threads} (h : Run move s n s') (hmove : move s' s'') :
      Run move s (n + 1) s''

/-- What every move keeps holds after all of them. -/
theorem Run.keeps {move : Threads → Threads → Prop} {n : Nat} {s s' : Threads}
    {P : Threads → Prop} (h : Run move s n s') (hmove : ∀ a b, P a → move a b → P b)
    (hs : P s) : P s' := by
  induction h with
  | refl => exact hs
  | step _ hstep ih => exact hmove _ _ ih hstep

end Threads

/-- A reader has not lost anything of its output. -/
def Draining.Holds (bytes : List UInt8) : Draining → Prop
  | reading got left => got ++ left = bytes
  | sent (.ok got) => got = bytes
  | sent (.error _) => True
  | broken => True

/-- Only what was collected is returned. -/
theorem Feeding.eq_of_outcome? {feeding : Feeding} {output output' : CommandOutput}
    (h : feeding.outcome? output = some (.ok output')) : output' = output := by
  cases feeding with
  | writing => cases h
  | broken => cases h
  | done result =>
      cases result with
      | ok =>
          cases h
          rfl
      | error cause =>
          rw [outcome?, CommandOutput.afterFeeding, Option.some_inj] at h
          split at h
          · cases h
            rfl
          · cases h

def Draining.messages : Draining → Nat
  | reading _ _ => 0
  | sent _ => 1
  | broken => 0

namespace Threads

variable {c : Command} {exit : Option Int} {content : Stream → List UInt8}
  {s s' : Threads} {stream : Stream} {got left : List UInt8}

/-- Every message sent is on the channel or taken, and what the caller keeps or returns
comes from the messages taken. -/
structure Accounted (exit : Option Int) (content : Stream → List UInt8) (s : Threads) :
    Prop where
  holds : ∀ stream, (s.readers stream).Holds (content stream)
  queued : ∀ message ∈ s.channel, s.readers message.1 = .sent message.2
  once : ∀ stream, (s.channel.map Prod.fst).count stream + s.taken.count stream =
    (s.readers stream).messages
  fresh : s.caller = .waiting → s.taken = []
  due : ∀ count kept, s.caller = .collecting count kept → count + s.taken.length = 2
  kept : ∀ count kept, s.caller = .collecting count kept →
    ∀ stream ∈ s.taken, kept stream = content stream
  returned : ∀ output, s.caller = .returned (.ok output) →
    output = .ofBytes exit (content .stdout) (content .stderr) ∧
      s.taken.Perm [.stdout, .stderr]

theorem accounted_start : (start c content).Accounted exit content where
  holds _ := rfl
  queued _ h := by cases h
  once _ := rfl
  fresh _ := rfl
  due _ _ h := by cases h
  kept _ _ h := by cases h
  returned _ h := by cases h

theorem readers_withReader_self (s : Threads) (stream : Stream) (d : Draining) :
    (s.withReader stream d).readers stream = d := by
  simp [withReader]

theorem readers_withReader_of_ne {stream' : Stream} (h : stream' ≠ stream)
    (d : Draining) : (s.withReader stream d).readers stream' = s.readers stream' := by
  simp [withReader, h]

/-- What holds of all readers holds when one of them goes on to where it holds. -/
theorem forall_withReader {P : Stream → Draining → Prop} {d : Draining}
    (h : ∀ stream', P stream' (s.readers stream')) (hd : P stream d) :
    ∀ stream', P stream' ((s.withReader stream d).readers stream') := by
  intro stream'
  by_cases hsame : stream' = stream
  · rw [hsame, readers_withReader_self]
    exact hd
  · rw [readers_withReader_of_ne hsame]
    exact h stream'

/-- No message is on its way from a reader that has sent none. -/
theorem Accounted.ne_of_reading (h : s.Accounted exit content)
    (hreader : s.readers stream = .reading got left) :
    ∀ message ∈ s.channel, message.1 ≠ stream := by
  intro message hmessage hsame
  have hsent := h.queued message hmessage
  rw [hsame, hreader] at hsent
  cases hsent

/-- A reader that goes on without sending loses nothing. -/
theorem Accounted.withReader {d : Draining} (h : s.Accounted exit content)
    (hreader : s.readers stream = .reading got left) (hholds : d.Holds (content stream))
    (hsilent : d.messages = 0) : (s.withReader stream d).Accounted exit content where
  holds := forall_withReader h.holds hholds
  queued message hmessage := by
    rw [readers_withReader_of_ne (h.ne_of_reading hreader message hmessage)]
    exact h.queued message hmessage
  once := by
    have honce := h.once stream
    rw [hreader] at honce
    exact forall_withReader (P := fun stream' d =>
      (s.channel.map Prod.fst).count stream' + s.taken.count stream' = d.messages)
      h.once (honce.trans hsilent.symm)
  fresh := h.fresh
  due := h.due
  kept := h.kept
  returned := h.returned

/-- A reader sends once, and has sent nothing before. -/
theorem Accounted.sending {result : Except SystemError (List UInt8)}
    (h : s.Accounted exit content) (hreader : s.readers stream = .reading got left)
    (hholds : (Draining.sent result).Holds (content stream)) :
    (s.sending stream result).Accounted exit content where
  holds := forall_withReader h.holds hholds
  queued message hmessage := by
    rcases List.mem_append.mp hmessage with hold | hnew
    · have hne := h.ne_of_reading hreader message hold
      exact (readers_withReader_of_ne hne _).trans (h.queued message hold)
    · obtain rfl := List.mem_singleton.mp hnew
      exact readers_withReader_self s stream _
  once stream' := by
    have honce := h.once stream'
    change ((s.channel ++ [(stream, result)]).map Prod.fst).count stream' +
      s.taken.count stream' = ((s.withReader stream (.sent result)).readers stream').messages
    rw [List.map_append, List.map_singleton, List.count_append]
    by_cases hsame : stream' = stream
    · rw [hsame, hreader, Draining.messages] at honce
      rw [hsame, readers_withReader_self, Draining.messages, List.count_singleton_self]
      omega
    · rw [readers_withReader_of_ne hsame, List.count_singleton,
        beq_false_of_ne (Ne.symm hsame)]
      exact honce
  fresh := h.fresh
  due := h.due
  kept := h.kept
  returned := h.returned

/-- The caller sees that the child has ended, and has no message yet. -/
theorem Accounted.seeingEnd (h : s.Accounted exit content) (hcaller : s.caller = .waiting) :
    { s with caller := .collecting 2 fun _ => [] }.Accounted exit content where
  holds := h.holds
  queued := h.queued
  once := h.once
  fresh := by
    intro hwaiting
    cases hwaiting
  due := by
    rintro _ _ ⟨⟩
    rw [h.fresh hcaller]
    rfl
  kept := by
    rintro _ _ ⟨⟩ stream hstream
    rw [h.fresh hcaller] at hstream
    cases hstream
  returned := by
    rintro _ ⟨⟩

/-- The caller gives up. -/
theorem Accounted.givingUp (h : s.Accounted exit content) (e : CommandError) :
    { s with caller := .returned (.error e) }.Accounted exit content where
  holds := h.holds
  queued := h.queued
  once := h.once
  fresh := by rintro ⟨⟩
  due := by rintro _ _ ⟨⟩
  kept := by rintro _ _ ⟨⟩
  returned := by rintro _ ⟨⟩

/-- The caller takes a message, and with it the whole of an output. -/
theorem Accounted.taking {count : Nat} {kept : Stream → List UInt8} {message : Message}
    {rest : List Message} (h : s.Accounted exit content)
    (hcaller : s.caller = .collecting (count + 1) kept)
    (hchannel : s.channel = message :: rest) :
    { s with
      channel := rest
      caller := .taking count kept message
      taken := message.1 :: s.taken }.Accounted exit content where
  holds := h.holds
  queued message' hmessage' :=
    h.queued message' (hchannel ▸ List.mem_cons_of_mem message hmessage')
  once stream := by
    have honce := h.once stream
    rw [hchannel, List.map_cons, List.count_cons] at honce
    change (rest.map Prod.fst).count stream + (message.1 :: s.taken).count stream =
      (s.readers stream).messages
    rw [List.count_cons]
    omega
  fresh := by
    obtain ⟨stream, result⟩ := message
    cases result <;> rintro ⟨⟩
  due := by
    have hdue := h.due _ _ hcaller
    obtain ⟨stream, result⟩ := message
    cases result with
    | error cause => rintro _ _ ⟨⟩
    | ok bytes =>
        rintro _ _ ⟨⟩
        rw [List.length_cons]
        omega
  kept := by
    have hkept := h.kept _ _ hcaller
    have hsent := h.queued message (hchannel ▸ List.mem_cons_self)
    have hholds := h.holds message.1
    rw [hsent] at hholds
    obtain ⟨stream, result⟩ := message
    cases result with
    | error cause => rintro _ _ ⟨⟩
    | ok bytes =>
        rintro _ _ ⟨⟩ stream' hstream'
        by_cases hsame : stream' = stream
        · rw [hsame, Function.update_self]
          exact hholds
        · rw [Function.update_of_ne hsame]
          exact hkept stream' ((List.mem_cons.mp hstream').resolve_left hsame)
  returned := by
    obtain ⟨stream, result⟩ := message
    cases result <;> rintro _ ⟨⟩

theorem length_eq_counts (streams : List Stream) :
    streams.length = streams.count .stdout + streams.count .stderr := by
  induction streams with
  | nil => rfl
  | cons stream streams ih =>
      rw [List.length_cons, ih]
      cases stream with
      | stdout =>
          rw [List.count_cons_self, List.count_cons_of_ne (by decide)]
          omega
      | stderr =>
          rw [List.count_cons_self, List.count_cons_of_ne (by decide)]
          omega

/-- No message is taken twice. -/
theorem Accounted.count_taken_le (h : s.Accounted exit content) (stream : Stream) :
    s.taken.count stream ≤ 1 := by
  have honce := h.once stream
  have hmessages : (s.readers stream).messages ≤ 1 := by
    cases s.readers stream with
    | reading got left => exact Nat.zero_le 1
    | sent result => exact Nat.le_refl 1
    | broken => exact Nat.zero_le 1
  omega

/-- When nothing more is due, one message of each output has been taken. -/
theorem Accounted.perm_taken (h : s.Accounted exit content)
    (hlength : s.taken.length = 2) : s.taken.Perm [.stdout, .stderr] := by
  have hcounts := length_eq_counts s.taken
  have hstdout := h.count_taken_le .stdout
  have hstderr := h.count_taken_le .stderr
  apply List.perm_iff_count.mpr
  intro stream
  cases stream with
  | stdout =>
      change s.taken.count .stdout = 1
      omega
  | stderr =>
      change s.taken.count .stderr = 1
      omega

/-- What the caller keeps when nothing more is due. -/
theorem Accounted.kept_eq {kept : Stream → List UInt8} (h : s.Accounted exit content)
    (hcaller : s.caller = .collecting 0 kept) : kept = content := by
  have hlength := h.due _ _ hcaller
  rw [Nat.zero_add] at hlength
  funext stream
  apply h.kept _ _ hcaller
  rw [(h.perm_taken hlength).mem_iff]
  cases stream <;> decide

/-- The caller has everything and returns. -/
theorem Accounted.finishing {kept : Stream → List UInt8}
    {result : Except CommandError CommandOutput} (h : s.Accounted exit content)
    (hcaller : s.caller = .collecting 0 kept)
    (hfed : s.feeding.outcome? (.ofBytes exit (kept .stdout) (kept .stderr)) = some result) :
    { s with caller := .returned result }.Accounted exit content where
  holds := h.holds
  queued := h.queued
  once := h.once
  fresh := by rintro ⟨⟩
  due := by rintro _ _ ⟨⟩
  kept := by rintro _ _ ⟨⟩
  returned := by
    rintro output ⟨⟩
    have hlength := h.due _ _ hcaller
    rw [h.kept_eq hcaller] at hfed
    exact ⟨Feeding.eq_of_outcome? hfed, h.perm_taken ((Nat.zero_add _).symm.trans hlength)⟩

theorem Step.accounted (hstep : Step exit s s') (h : s.Accounted exit content) :
    s'.Accounted exit content := by
  cases hstep with
  | @read stream got left chunk hreader _ =>
      have hholds := h.holds stream
      rw [hreader] at hholds
      exact h.withReader hreader ((List.append_assoc _ _ _).trans hholds) rfl
  | @send stream got hreader =>
      have hholds := h.holds stream
      rw [hreader] at hholds
      exact h.sending hreader ((List.append_nil got).symm.trans hholds)
  | feed => exact ⟨h.holds, h.queued, h.once, h.fresh, h.due, h.kept, h.returned⟩
  | seeEnd hcaller => exact h.seeingEnd hcaller
  | take hcaller hchannel => exact h.taking hcaller hchannel
  | finish hcaller hfed => exact h.finishing hcaller hfed

theorem Fault.accounted (hfault : Fault c s s') (h : s.Accounted exit content) :
    s'.Accounted exit content := by
  cases hfault with
  | readFails cause hreader => exact h.sending hreader trivial
  | readerBreaks hreader => exact h.withReader hreader trivial rfl
  | feedFails => exact ⟨h.holds, h.queued, h.once, h.fresh, h.due, h.kept, h.returned⟩
  | writerBreaks =>
      exact ⟨h.holds, h.queued, h.once, h.fresh, h.due, h.kept, h.returned⟩
  | waitFails cause => exact h.givingUp (.io cause)
  | expires => exact h.givingUp (.timeout c.line c.timeout)
  | disconnects => exact h.givingUp (.io (.other "Output reader thread stopped"))

/-- The caller finds nobody left only if a reader broke down: the others have sent, and
then nothing more is due. -/
theorem Accounted.exists_broken (h : s.Accounted exit content) (hgone : s.Disconnected) :
    ∃ stream, s.readers stream = .broken := by
  obtain ⟨⟨count, kept, hcaller⟩, hempty, hgone⟩ := hgone
  apply Classical.byContradiction
  intro hwhole
  rw [not_exists] at hwhole
  have htaken (stream : Stream) : s.taken.count stream = 1 := by
    have honce := h.once stream
    rw [hempty, List.map_nil, List.count_nil, Nat.zero_add] at honce
    rw [honce]
    cases hreader : s.readers stream with
    | reading got left => exact absurd hreader (hgone stream got left)
    | sent result => rfl
    | broken => exact absurd hreader (hwhole stream)
  have hlength := length_eq_counts s.taken
  rw [htaken, htaken] at hlength
  have hdue := h.due _ _ hcaller
  omega

end Threads

end Lintmark
