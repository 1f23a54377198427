/-
Lines of a document.  A line starts where the count of line feeds reaches its
number, and that one equivalence carries the order of the starts, the place of
each terminator, and the way back from an offset to its line and column.
-/
import Mathlib.Data.List.Basic
import Lintmark.Document

namespace Lintmark

namespace Document

variable {d : Document} {line offset : Nat}

/-- The line of an offset: the number of line feeds before it. -/
def lineOf (d : Document) (offset : Nat) : Nat :=
  (d.chars.take offset).count '\n'

theorem lineOf_mono (d : Document) {a b : Nat} (h : a ≤ b) :
    d.lineOf a ≤ d.lineOf b :=
  (List.take_sublist_take_left h).count_le '\n'

theorem lineOf_succ (d : Document) (offset : Nat) :
    d.lineOf (offset + 1) =
      d.lineOf offset + if d.charAt? offset = some '\n' then 1 else 0 := by
  rw [lineOf, List.take_add_one, List.count_append, lineOf, charAt?]
  cases hchar : d.chars[offset]? with
  | none => simp
  | some c => simp [List.count_singleton]

theorem lineOf_lt_lineCount (d : Document) (offset : Nat) :
    d.lineOf offset < d.lineCount :=
  Nat.lt_succ_of_le ((List.take_sublist offset d.chars).count_le '\n')

theorem lineOf_charCount (d : Document) :
    d.lineOf d.charCount + 1 = d.lineCount := by
  simp [lineOf, charCount, lineCount]

/-- A line starts at or before an offset exactly when that many line feeds
stand before the offset. -/
theorem offsetOfLine_le_iff {cs : List Char} (h : line ≤ cs.count '\n') :
    offsetOfLine cs line ≤ offset ↔ line ≤ (cs.take offset).count '\n' := by
  induction cs generalizing line offset with
  | nil =>
      have hline : line = 0 := by simpa using h
      simp [hline, offsetOfLine]
  | cons c cs ih =>
      cases line with
      | zero => simp [offsetOfLine]
      | succ line =>
          cases offset with
          | zero => simp [offsetOfLine]
          | succ offset =>
              by_cases hc : c = '\n'
              · subst hc
                have hcount : line ≤ cs.count '\n' := by simpa using h
                simpa [offsetOfLine] using ih hcount
              · have hcount : line + 1 ≤ cs.count '\n' := by
                  simpa [List.count_cons, hc] using h
                simpa [offsetOfLine, List.count_cons, hc] using ih hcount

theorem lineStart_le_iff (hline : line < d.lineCount) :
    d.lineStart line ≤ offset ↔ line ≤ d.lineOf offset :=
  offsetOfLine_le_iff (Nat.le_of_lt_succ hline)

theorem lt_lineStart_iff (hline : line < d.lineCount) :
    offset < d.lineStart line ↔ d.lineOf offset < line := by
  rw [← Nat.not_le, lineStart_le_iff hline, Nat.not_le]

theorem lineStart_lineOf_le (d : Document) (offset : Nat) :
    d.lineStart (d.lineOf offset) ≤ offset :=
  (lineStart_le_iff (d.lineOf_lt_lineCount offset)).2 (Nat.le_refl _)

@[simp]
theorem lineStart_zero (d : Document) : d.lineStart 0 = 0 := by
  simp [lineStart, offsetOfLine]

theorem lineStart_le_charCount (hline : line < d.lineCount) :
    d.lineStart line ≤ d.charCount := by
  rw [lineStart_le_iff hline]
  have hall := d.lineOf_charCount
  omega

theorem lineOf_lineStart (hline : line < d.lineCount) :
    d.lineOf (d.lineStart line) = line := by
  have hge : line ≤ d.lineOf (d.lineStart line) :=
    (lineStart_le_iff hline).1 (Nat.le_refl _)
  cases hstart : d.lineStart line with
  | zero =>
      have hzero : d.lineOf 0 = 0 := by simp [lineOf]
      rw [hstart] at hge
      omega
  | succ before =>
      -- One character before its start the line has not been reached.
      have hbefore : d.lineOf before < line :=
        (lt_lineStart_iff hline).1 (by omega)
      have hstep := d.lineOf_succ before
      rw [hstart] at hge
      split at hstep <;> omega

theorem lineStart_lt_lineStart {a b : Nat} (hab : a < b)
    (hb : b < d.lineCount) :
    d.lineStart a < d.lineStart b := by
  rw [lt_lineStart_iff hb, lineOf_lineStart (Nat.lt_trans hab hb)]
  exact hab

/-- A line feed is the character after which the count of lines goes up. -/
theorem charAt?_eq_feed_iff :
    d.charAt? offset = some '\n' ↔
      d.lineOf (offset + 1) = d.lineOf offset + 1 := by
  rw [lineOf_succ]
  split <;> simp_all

/-- Every line but the last is followed by a line feed. -/
theorem exists_feed (hnext : line + 1 < d.lineCount) :
    ∃ feed, d.lineStart (line + 1) = feed + 1 ∧ d.lineStart line ≤ feed ∧
      d.charAt? feed = some '\n' := by
  have hlt : d.lineStart line < d.lineStart (line + 1) :=
    lineStart_lt_lineStart (Nat.lt_succ_self line) hnext
  obtain ⟨feed, hfeed⟩ :=
    Nat.exists_eq_succ_of_ne_zero (Nat.ne_of_gt (Nat.zero_lt_of_lt hlt))
  refine ⟨feed, hfeed, by omega, ?_⟩
  have hbefore : d.lineOf feed < line + 1 :=
    (lt_lineStart_iff hnext).1 (by omega)
  have hafter : d.lineOf (feed + 1) = line + 1 := by
    rw [← Nat.succ_eq_add_one, ← hfeed, lineOf_lineStart hnext]
  have hmono := d.lineOf_succ feed
  rw [charAt?_eq_feed_iff]
  split at hmono <;> omega

/-- How a line ends at `stop`: with the document, at a line feed, or at a
carriage return with a line feed behind it. -/
inductive LineEnding (d : Document) (line stop : Nat) : Prop where
  | document (last : line + 1 = d.lineCount) (stop_eq : stop = d.charCount)
  | feed (inner : line + 1 < d.lineCount)
      (next : d.lineStart (line + 1) = stop + 1)
      (bare : d.lineStart line < stop → d.charAt? (stop - 1) ≠ some '\r')
  | carriage (inner : line + 1 < d.lineCount)
      (next : d.lineStart (line + 1) = stop + 2)
      (atReturn : d.charAt? stop = some '\r')
      (atFeed : d.charAt? (stop + 1) = some '\n')

/-- A line ends at one place only. -/
theorem LineEnding.unique {a b : Nat} (ha : d.LineEnding line a)
    (hb : d.LineEnding line b) (hstart : d.lineStart line ≤ a)
    (hstart' : d.lineStart line ≤ b) : a = b := by
  cases ha with
  | document hlast ha =>
      cases hb with
      | document _ hb => rw [ha, hb]
      | feed hinner _ _ => omega
      | carriage hinner _ _ _ => omega
  | feed hinner hnext hbare =>
      cases hb with
      | document hlast _ => omega
      | feed _ hnext' _ => omega
      | carriage _ hnext' hreturn _ =>
          have hbefore : a - 1 = b := by omega
          exact absurd (by rwa [hbefore]) (hbare (by omega))
  | carriage hinner hnext hreturn _ =>
      cases hb with
      | document hlast _ => omega
      | feed _ hnext' hbare =>
          have hbefore : b - 1 = a := by omega
          exact absurd (by rwa [hbefore]) (hbare (by omega))
      | carriage _ hnext' _ _ => omega

theorem lineStart_le_lineEnd (hline : line < d.lineCount) :
    d.lineStart line ≤ d.lineEnd line := by
  rw [lineEnd]
  split
  · exact lineStart_le_charCount hline
  · rename_i hinner
    obtain ⟨feed, hnext, hfeed, -⟩ := exists_feed (Nat.not_le.1 hinner)
    simp only [hnext, Nat.add_sub_cancel]
    split <;> omega

theorem lineEnding (hline : line < d.lineCount) :
    d.LineEnding line (d.lineEnd line) := by
  by_cases hlast : line + 1 ≥ d.lineCount
  · exact .document (by omega) (by simp [lineEnd, hlast])
  · obtain ⟨feed, hnext, hstart, hfeed⟩ := exists_feed (Nat.not_le.1 hlast)
    by_cases hreturn : feed > d.lineStart line ∧
        d.charAt? (feed - 1) = some '\r'
    · have hstop : d.lineEnd line = feed - 1 := by
        simp [lineEnd, hlast, hnext, hreturn]
      have hpos : feed - 1 + 1 = feed := by omega
      refine .carriage (Nat.not_le.1 hlast) ?_ ?_ ?_
      · omega
      · rw [hstop]
        exact hreturn.2
      · rw [hstop, hpos]
        exact hfeed
    · have hstop : d.lineEnd line = feed := by
        simp [lineEnd, hlast, hnext, hreturn]
      refine .feed (Nat.not_le.1 hlast) (by omega) ?_
      rw [hstop]
      exact fun hlt hchar => hreturn ⟨hlt, hchar⟩

theorem lineEnd_le_charCount (hline : line < d.lineCount) :
    d.lineEnd line ≤ d.charCount := by
  cases lineEnding hline with
  | document _ hstop => exact Nat.le_of_eq hstop
  | feed hinner hnext _ =>
      have hle := lineStart_le_charCount hinner
      omega
  | carriage hinner hnext _ _ =>
      have hle := lineStart_le_charCount hinner
      omega

theorem lineEnd_lt_lineStart (hinner : line + 1 < d.lineCount) :
    d.lineEnd line < d.lineStart (line + 1) := by
  cases lineEnding (Nat.lt_of_succ_lt hinner) with
  | document hlast _ => omega
  | feed _ hnext _ => omega
  | carriage _ hnext _ _ => omega

theorem lineEnd_lt_lineStart_of_lt {a b : Nat} (hab : a < b)
    (hb : b < d.lineCount) :
    d.lineEnd a < d.lineStart b := by
  have hnext : d.lineStart (a + 1) ≤ d.lineStart b := by
    rw [lineStart_le_iff (by omega), lineOf_lineStart hb]
    exact hab
  have hinner : a + 1 < d.lineCount := by omega
  have hend := lineEnd_lt_lineStart hinner
  omega

/-- Every offset from the start of a line to its end is on that line. -/
theorem lineOf_eq (hline : line < d.lineCount)
    (hstart : d.lineStart line ≤ offset) (hend : offset ≤ d.lineEnd line) :
    d.lineOf offset = line := by
  have hge : line ≤ d.lineOf offset := (lineStart_le_iff hline).1 hstart
  by_cases hinner : line + 1 < d.lineCount
  · have hlt : d.lineOf offset < line + 1 :=
      (lt_lineStart_iff hinner).1
        (Nat.lt_of_le_of_lt hend (lineEnd_lt_lineStart hinner))
    omega
  · have hlt := d.lineOf_lt_lineCount offset
    omega

end Document

end Lintmark
