/-
Collecting the outputs of a child that has ended.  Each wait for a report is
bounded, so all of them together are, and how collecting ends says what the
readers did.
-/
import Mathlib.Data.List.Nodup
import Lintmark.Command.Run

namespace Lintmark

variable {readers : List Reader} {r : Reader} {deadline now limit : Nat}

namespace Reader

theorem reportTime?_eq_some_iff {t : Nat} :
    r.reportTime? = some t ↔ ∃ result, r.fate = .reports t result := by
  unfold reportTime?
  cases r.fate <;> simp

theorem fate_of_breakTime? {t : Nat} (h : r.breakTime? = some t) :
    r.fate = .breaks t := by
  unfold breakTime? at h
  cases hfate : r.fate with
  | breaks time =>
      rw [hfate] at h
      cases h
      rfl
  | reports time result =>
      rw [hfate] at h
      cases h
  | never =>
      rw [hfate] at h
      cases h

/-- The reader reports at a time before which no other one does. -/
structure FirstOf (r : Reader) (readers : List Reader) (t : Nat) : Prop where
  mem : r ∈ readers
  reports : r.reportTime? = some t
  first : ∀ r' ∈ readers, ∀ t', r'.reportTime? = some t' → t ≤ t'

variable {head : Reader} {tail : List Reader} {t : Nat}

theorem FirstOf.of_tail (h : r.FirstOf tail t)
    (hhead : ∀ t', head.reportTime? = some t' → t ≤ t') :
    r.FirstOf (head :: tail) t := by
  refine ⟨List.mem_cons_of_mem head h.mem, h.reports, ?_⟩
  intro r' hr' t' ht'
  rcases List.mem_cons.mp hr' with rfl | hr'
  · exact hhead t' ht'
  · exact h.first r' hr' t' ht'

theorem FirstOf.of_head (h : head.reportTime? = some t)
    (htail : ∀ r' ∈ tail, ∀ t', r'.reportTime? = some t' → t ≤ t') :
    head.FirstOf (head :: tail) t := by
  refine ⟨List.mem_cons_self, h, ?_⟩
  intro r' hr' t' ht'
  rcases List.mem_cons.mp hr' with rfl | hr'
  · exact Nat.le_of_eq (Option.some.inj (h.symm.trans ht'))
  · exact htail r' hr' t' ht'

end Reader

theorem firstToReport?_eq_none (h : firstToReport? readers = none) :
    ∀ r ∈ readers, r.reportTime? = none := by
  fun_induction firstToReport? readers with
  | case1 =>
      intro r hr
      cases hr
  | case2 head tail hhead ih =>
      intro r hr
      rcases List.mem_cons.mp hr with rfl | hr
      · exact hhead
      · exact ih h r hr
  | case3 => cases h
  | case4 => cases h
  | case5 => cases h

theorem firstToReport?_eq_some (h : firstToReport? readers = some r) :
    ∃ t, r.FirstOf readers t := by
  fun_induction firstToReport? readers generalizing r with
  | case1 => cases h
  | case2 head tail hhead ih =>
      obtain ⟨t, hfirst⟩ := ih h
      refine ⟨t, hfirst.of_tail ?_⟩
      intro t' ht'
      rw [hhead] at ht'
      cases ht'
  | case3 head tail t htail hhead _ =>
      cases h
      refine ⟨t, .of_head hhead ?_⟩
      intro r' hr' t' ht'
      rw [firstToReport?_eq_none htail r' hr'] at ht'
      cases ht'
  | case4 head tail t next htail hhead hany ih =>
      cases h
      obtain ⟨u, hnext⟩ := ih htail
      have hlt : u < t := by simpa [hnext.reports] using hany
      refine ⟨u, hnext.of_tail ?_⟩
      intro t' ht'
      rw [hhead] at ht'
      cases ht'
      exact Nat.le_of_lt hlt
  | case5 head tail t next htail hhead hany ih =>
      cases h
      obtain ⟨u, hnext⟩ := ih htail
      have hle : t ≤ u := by simpa [hnext.reports] using hany
      refine ⟨t, .of_head hhead ?_⟩
      intro r' hr' t' ht'
      exact Nat.le_trans hle (hnext.first r' hr' t' ht')

theorem fates_of_breakTimes {times : List Nat}
    (h : readers.mapM Reader.breakTime? = some times) :
    ∀ r ∈ readers, ∃ t, r.fate = .breaks t := by
  induction readers generalizing times with
  | nil => exact nofun
  | cons r readers ih =>
      simp only [List.mapM_cons, Option.bind_eq_bind, Option.bind_eq_some_iff] at h
      obtain ⟨t, ht, rest, hrest, -⟩ := h
      exact List.forall_mem_cons.mpr ⟨⟨t, Reader.fate_of_breakTime? ht⟩, ih hrest⟩

/-- Everything that waiting for a report can come to: the first report, or that all
readers broke down, or that none of them reports in time. -/
theorem receive_cases (readers : List Reader) (now limit : Nat) :
    (∃ r ∈ readers, ∃ t result, r.fate = .reports t result ∧ t ≤ now + limit ∧
        receive readers now limit = .report (max now t) r.stream result) ∨
      (∃ t ≤ now + limit, (∀ r ∈ readers, ∃ b, r.fate = .breaks b) ∧
        receive readers now limit = .disconnected t) ∨
      ((∀ r ∈ readers, ∀ t result, r.fate = .reports t result → now + limit < t) ∧
        receive readers now limit = .timedOut (now + limit)) := by
  cases hfirst : firstToReport? readers with
  | some r =>
      obtain ⟨t, hmem, hreports, hleast⟩ := firstToReport?_eq_some hfirst
      obtain ⟨result, hfate⟩ := Reader.reportTime?_eq_some_iff.mp hreports
      obtain ⟨stream, fate⟩ := r
      obtain rfl : fate = .reports t result := hfate
      by_cases hintime : t ≤ now + limit
      · refine Or.inl ⟨_, hmem, t, result, rfl, hintime, ?_⟩
        simp only [receive, hfirst, if_pos hintime]
      · refine Or.inr (Or.inr ⟨?_, ?_⟩)
        · intro r' hr' t' result' hfate'
          have hle := hleast r' hr' t'
            (Reader.reportTime?_eq_some_iff.mpr ⟨result', hfate'⟩)
          exact Nat.lt_of_lt_of_le (Nat.lt_of_not_le hintime) hle
        · simp only [receive, hfirst, if_neg hintime]
  | none =>
      have hsilent : ∀ r ∈ readers, ∀ t result, r.fate = .reports t result →
          now + limit < t := by
        intro r hr t result hfate
        have hreports := Reader.reportTime?_eq_some_iff.mpr ⟨result, hfate⟩
        rw [firstToReport?_eq_none hfirst r hr] at hreports
        cases hreports
      cases hbreaks : readers.mapM Reader.breakTime? with
      | none =>
          refine Or.inr (Or.inr ⟨hsilent, ?_⟩)
          simp only [receive, hfirst, hbreaks]
      | some times =>
          by_cases hintime : times.foldl max now ≤ now + limit
          · refine Or.inr (Or.inl ⟨_, hintime, fates_of_breakTimes hbreaks, ?_⟩)
            simp only [receive, hfirst, hbreaks, if_pos hintime]
          · refine Or.inr (Or.inr ⟨hsilent, ?_⟩)
            simp only [receive, hfirst, hbreaks, if_neg hintime]

namespace Reader

/-- The reader has delivered its output by this time. -/
def Delivers (r : Reader) (now : Nat) : Prop :=
  ∃ t bytes, r.fate = .reports t (.ok bytes) ∧ t ≤ now

/-- The reader reports an error, or breaks down. -/
def Fails (r : Reader) : Prop :=
  (∃ t cause, r.fate = .reports t (.error cause)) ∨ ∃ t, r.fate = .breaks t

/-- The reader reports nothing up to this time. -/
def SilentTo (r : Reader) (now : Nat) : Prop :=
  ∀ t result, r.fate = .reports t result → now < t

def others (r : Reader) (readers : List Reader) : List Reader :=
  readers.filter (·.stream != r.stream)

theorem Delivers.mono {a b : Nat} (h : r.Delivers a) (hab : a ≤ b) :
    r.Delivers b := by
  obtain ⟨t, bytes, hfate, ht⟩ := h
  exact ⟨t, bytes, hfate, Nat.le_trans ht hab⟩

end Reader

/-- How long one report may take. -/
def window (deadline now : Nat) : Nat :=
  max (deadline - now) pollInterval

theorem le_add_window (deadline now : Nat) : deadline ≤ now + window deadline now := by
  unfold window
  omega

theorem add_window_le (deadline now : Nat) :
    now + window deadline now ≤ max deadline now + pollInterval := by
  unfold window
  omega

theorem collect_succ (count : Nat) (out err : List UInt8) :
    collect deadline (count + 1) readers now out err =
      match receive readers now (window deadline now) with
      | .timedOut t => .expired t
      | .disconnected t => .failed t (.other "Output reader thread stopped")
      | .report t _ (.error cause) => .failed t cause
      | .report t stream (.ok bytes) =>
        collect deadline count (readers.filter (·.stream != stream)) t
          (if stream = .stdout then bytes else out)
          (if stream = .stderr then bytes else err) := by
  rw [collect, window]
  cases receive readers now (max (deadline - now) pollInterval) with
  | report t stream result => cases result <;> cases stream <;> rfl
  | disconnected t => rfl
  | timedOut t => rfl

/-- One step of collecting: an output comes in and its reader is done with, or
collecting ends because of some reader. -/
theorem collect_succ_cases (deadline now count : Nat) (out err : List UInt8)
    (hreaders : readers ≠ []) :
    (∃ r ∈ readers, ∃ t bytes, r.fate = .reports t (.ok bytes) ∧
        t ≤ now + window deadline now ∧
        collect deadline (count + 1) readers now out err =
          collect deadline count (r.others readers) (max now t)
            (if r.stream = .stdout then bytes else out)
            (if r.stream = .stderr then bytes else err)) ∨
      (∃ t ≤ now + window deadline now, ∃ cause, (∃ r ∈ readers, r.Fails) ∧
        collect deadline (count + 1) readers now out err = .failed t cause) ∨
      ∃ t ≤ now + window deadline now, (∃ r ∈ readers, r.SilentTo deadline) ∧
        collect deadline (count + 1) readers now out err = .expired t := by
  obtain ⟨head, hhead⟩ := List.exists_mem_of_ne_nil readers hreaders
  rw [collect_succ]
  rcases receive_cases readers now (window deadline now) with
    ⟨r, hr, t, result, hfate, ht, hreceive⟩ | ⟨t, ht, hbreaks, hreceive⟩ |
      ⟨hsilent, hreceive⟩
  · rw [hreceive]
    cases result with
    | ok bytes => exact Or.inl ⟨r, hr, t, bytes, hfate, ht, rfl⟩
    | error cause =>
        have htime : max now t ≤ now + window deadline now :=
          Nat.max_le.mpr ⟨Nat.le_add_right _ _, ht⟩
        have hfails : r.Fails := Or.inl ⟨t, cause, hfate⟩
        exact Or.inr (Or.inl ⟨_, htime, cause, ⟨r, hr, hfails⟩, rfl⟩)
  · rw [hreceive]
    have hfails : head.Fails := Or.inr (hbreaks head hhead)
    exact Or.inr (Or.inl ⟨t, ht, _, ⟨head, hhead, hfails⟩, rfl⟩)
  · rw [hreceive]
    refine Or.inr (Or.inr ⟨_, Nat.le_refl _, ⟨head, hhead, ?_⟩, rfl⟩)
    intro t result hfate
    exact Nat.lt_of_le_of_lt (le_add_window deadline now)
      (hsilent head hhead t result hfate)

def Collected.time : Collected → Nat
  | outputs t _ _ => t
  | failed t _ => t
  | expired t => t

/-- What collecting from a moment on owes to the readers: at its end all of them have
delivered, or one fails, or one has not reported by the deadline. -/
def Collected.Accounts (deadline now : Nat) (readers : List Reader) :
    Collected → Prop
  | outputs t _ _ => now ≤ t ∧ ∀ r ∈ readers, r.Delivers t
  | failed _ _ => ∃ r ∈ readers, r.Fails
  | expired _ => ∃ r ∈ readers, r.SilentTo deadline

/-- A reader that has delivered is accounted for. -/
theorem Collected.Accounts.of_others {collected : Collected} {t : Nat}
    (h : collected.Accounts deadline (max now t) (r.others readers))
    (hall : ∀ r' ∈ readers, r' = r ∨ r' ∈ r.others readers)
    (hr : r.Delivers t) : collected.Accounts deadline now readers := by
  cases collected with
  | outputs last out err =>
      obtain ⟨hlast, hleft⟩ := h
      refine ⟨Nat.le_trans (Nat.le_max_left _ _) hlast, ?_⟩
      intro r' hr'
      rcases hall r' hr' with rfl | hr'
      · exact hr.mono (Nat.le_trans (Nat.le_max_right _ _) hlast)
      · exact hleft r' hr'
  | failed last cause =>
      obtain ⟨r', hr', hfails⟩ := h
      exact ⟨r', List.mem_of_mem_filter hr', hfails⟩
  | expired last =>
      obtain ⟨r', hr', hsilent⟩ := h
      exact ⟨r', List.mem_of_mem_filter hr', hsilent⟩

theorem eq_or_mem_others (hstreams : (readers.map Reader.stream).Nodup)
    (hr : r ∈ readers) {r' : Reader} (hr' : r' ∈ readers) :
    r' = r ∨ r' ∈ r.others readers := by
  by_cases hsame : r'.stream = r.stream
  · exact Or.inl (List.inj_on_of_nodup_map hstreams hr' hr hsame)
  · exact Or.inr (List.mem_filter.mpr ⟨hr', bne_iff_ne.mpr hsame⟩)

theorem nodup_others (hstreams : (readers.map Reader.stream).Nodup) :
    ((r.others readers).map Reader.stream).Nodup :=
  hstreams.sublist (List.filter_sublist.map Reader.stream)

theorem length_others (hstreams : (readers.map Reader.stream).Nodup)
    (hr : r ∈ readers) :
    (r.others readers).length + 1 = readers.length := by
  have hone : readers.countP (·.stream == r.stream) = 1 := by
    have hcount := List.count_eq_one_of_mem hstreams (List.mem_map_of_mem hr)
    rwa [List.count, List.countP_map] at hcount
  have hsplit := List.length_eq_countP_add_countP (·.stream == r.stream) (l := readers)
  rw [hone, Nat.add_comm] at hsplit
  rw [Reader.others, ← List.countP_eq_length_filter, hsplit, Nat.add_right_cancel_iff]
  apply List.countP_congr
  intro r' _
  simp

/-- Collecting as many outputs as there are readers ends in time, for a reason that
lies with the readers. -/
theorem collect_accounts {count : Nat} (deadline now : Nat) (out err : List UInt8)
    (hstreams : (readers.map Reader.stream).Nodup)
    (hlength : readers.length = count) :
    (collect deadline count readers now out err).Accounts deadline now readers ∧
      (collect deadline count readers now out err).time ≤
        max deadline now + count * pollInterval := by
  induction count generalizing readers now out err with
  | zero =>
      obtain rfl := List.length_eq_zero_iff.mp hlength
      refine ⟨⟨Nat.le_refl _, fun r hr => ?_⟩, ?_⟩
      · cases hr
      · rw [collect, Collected.time, Nat.zero_mul, Nat.add_zero]
        exact Nat.le_max_right _ _
  | succ count ih =>
      have hreaders : readers ≠ [] := List.ne_nil_of_length_eq_add_one hlength
      have hwindow := add_window_le deadline now
      rcases collect_succ_cases deadline now count out err hreaders with
        ⟨r, hr, t, bytes, hfate, ht, hcollect⟩ | ⟨t, ht, cause, hfails, hcollect⟩ |
          ⟨t, ht, hsilent, hcollect⟩
      · have hleft := length_others hstreams hr
        obtain ⟨haccounts, htime⟩ := ih (max now t)
          (if r.stream = .stdout then bytes else out)
          (if r.stream = .stderr then bytes else err) (nodup_others hstreams)
          (Nat.add_right_cancel (hleft.trans hlength))
        rw [hcollect]
        constructor
        · apply haccounts.of_others
          · intro r' hr'
            exact eq_or_mem_others hstreams hr hr'
          · exact ⟨t, bytes, hfate, Nat.le_refl t⟩
        · rw [Nat.succ_mul]
          omega
      · rw [hcollect]
        refine ⟨hfails, ?_⟩
        rw [Collected.time, Nat.succ_mul]
        omega
      · rw [hcollect]
        refine ⟨hsilent, ?_⟩
        rw [Collected.time, Nat.succ_mul]
        omega

def CommandOutput.ofBytes (exit : Option Int) (out err : List UInt8) :
    CommandOutput where
  stdout := String.ofList (Text.Utf8.decodeLossy out)
  stderr := String.ofList (Text.Utf8.decodeLossy err)
  exit := exit

/-- Waiting for the thread that feeds the child changes nothing about its output. -/
theorem eq_of_joinWriter {fate : Fate (Except SystemError Unit)} {t : Nat}
    {output output' : CommandOutput}
    (h : joinWriter fate now output = .returned t (.ok output')) :
    output' = output := by
  unfold joinWriter at h
  split at h
  · cases h
    rfl
  · split at h
    · cases h
      rfl
    · cases h
  · cases h
  · cases h

namespace Command

variable (c : Command) {s : Surroundings} (exit : Option Int) {t : Nat}

theorem finish_of_expired
    (h : collect deadline 2 s.readers now [] [] = .expired t) :
    c.finish s deadline now exit =
      .returned t (.error (.timeout c.line c.timeout)) := by
  rw [finish, h]

theorem finish_of_failed {cause : SystemError}
    (h : collect deadline 2 s.readers now [] [] = .failed t cause) :
    c.finish s deadline now exit = .returned t (.error (.io cause)) := by
  rw [finish, h]

/-- A run whose outputs are there goes on to the thread that feeds the child. -/
theorem finish_of_outputs {out err : List UInt8}
    (h : collect deadline 2 s.readers now [] [] = .outputs t out err) :
    c.finish s deadline now exit =
      if c.input.isSome then joinWriter s.writer t (.ofBytes exit out err)
      else .returned t (.ok (.ofBytes exit out err)) := by
  rw [finish, h]
  rfl

end Command

end Lintmark
