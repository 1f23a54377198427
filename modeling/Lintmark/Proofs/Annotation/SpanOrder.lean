/-
The order of spans.  Offsets come in the order of the lines and columns that they are
found from, so that issues sorted by where they start have spans sorted in the same way.
-/
import Mathlib.Data.Prod.Lex
import Lintmark.Proofs.Annotation.Placement

namespace Lintmark

namespace Issue

/-- Where an issue starts: in order of lines, and of columns on the same line. -/
def start (i : Issue) : Nat ×ₗ Nat :=
  toLex (i.line, i.column)

/-- Where an issue ends, in the same order. -/
def stop (i : Issue) : Nat ×ₗ Nat :=
  toLex (i.effectiveEndLine, i.effectiveEndColumn)

variable {i j : Issue}

theorem start_le_start_iff :
    i.start ≤ j.start ↔ i.line < j.line ∨ i.line = j.line ∧ i.column ≤ j.column :=
  Prod.Lex.toLex_le_toLex

theorem stop_le_stop_iff :
    i.stop ≤ j.stop ↔ i.effectiveEndLine < j.effectiveEndLine ∨
      i.effectiveEndLine = j.effectiveEndLine ∧
        i.effectiveEndColumn ≤ j.effectiveEndColumn :=
  Prod.Lex.toLex_le_toLex

end Issue

namespace Document

variable {d : Document} {i j : Issue} {s t : Span} {line line' column column' : Nat}

/-- A column of one line lands before any column of a later line, and not behind a greater
column of its own line. -/
theorem lineStart_add_columnIn_le (hline : line' < d.lineCount)
    (h : line < line' ∨ line = line' ∧ column ≤ column') :
    d.lineStart line + columnIn (d.row line) column ≤
      d.lineStart line' + columnIn (d.row line') column' := by
  rcases h with hlt | ⟨rfl, hcolumn⟩
  · have hrow := lineStart_add_row_length (Nat.lt_trans hlt hline)
    have hinside := columnIn_le_length (d.row line) column
    have hbetween := lineEnd_lt_lineStart_of_lt hlt hline
    omega
  · exact Nat.add_le_add_left (columnIn_mono _ hcolumn) _

theorem fits_of_spanOf? (h : d.spanOf? i = some s) : i.Fits d := by
  rw [← isSome_spanOf?_iff, h]
  rfl

theorem columnStart_of_spanOf? (h : d.spanOf? i = some s) :
    s.columnStart = d.lineStart i.firstLine + d.startColumn i := by
  rw [spanOf?_of_fits (fits_of_spanOf? h)] at h
  cases h
  rfl

theorem columnEnd_of_spanOf? (h : d.spanOf? i = some s) :
    s.columnEnd = d.lineStart i.lastLine + d.endColumn i := by
  rw [spanOf?_of_fits (fits_of_spanOf? h)] at h
  cases h
  rfl

theorem columnStart_le_of_start_le (hs : d.spanOf? i = some s) (ht : d.spanOf? j = some t)
    (h : i.start ≤ j.start) : s.columnStart ≤ t.columnStart := by
  have hgiven := (fits_of_spanOf? hs).given
  rw [columnStart_of_spanOf? hs, columnStart_of_spanOf? ht]
  apply lineStart_add_columnIn_le (fits_of_spanOf? ht).firstLine_lt
  rcases Issue.start_le_start_iff.mp h with hlt | ⟨hline, hcolumn⟩
  · exact Or.inl (Nat.sub_lt_sub_right hgiven hlt)
  · exact Or.inr ⟨congrArg (· - 1) hline, hcolumn⟩

theorem columnEnd_le_of_stop_le (hs : d.spanOf? i = some s) (ht : d.spanOf? j = some t)
    (h : i.stop ≤ j.stop) : s.columnEnd ≤ t.columnEnd := by
  have hfits := fits_of_spanOf? hs
  have hgiven := Nat.le_trans hfits.given hfits.ordered
  rw [columnEnd_of_spanOf? hs, columnEnd_of_spanOf? ht]
  apply lineStart_add_columnIn_le (fits_of_spanOf? ht).lastLine_lt
  rcases Issue.stop_le_stop_iff.mp h with hlt | ⟨hline, hcolumn⟩
  · exact Or.inl (Nat.sub_lt_sub_right hgiven hlt)
  · exact Or.inr ⟨congrArg (· - 1) hline, hcolumn⟩

/-- Only reversed columns on one line reverse a span. -/
theorem columnStart_le_columnEnd (hs : d.spanOf? i = some s)
    (h : ¬ (i.line = i.effectiveEndLine ∧ i.effectiveEndColumn < i.column)) :
    s.columnStart ≤ s.columnEnd := by
  have hfits := fits_of_spanOf? hs
  rw [columnStart_of_spanOf? hs, columnEnd_of_spanOf? hs]
  apply lineStart_add_columnIn_le hfits.lastLine_lt
  rcases Nat.lt_or_eq_of_le hfits.firstLine_le with hlt | hsame
  · exact Or.inl hlt
  · have hline := hfits.firstLine_eq_iff.mp hsame
    exact Or.inr ⟨hsame, Nat.not_lt.mp fun hreversed => h ⟨hline, hreversed⟩⟩

/-- Spans keep the order of their issues.  Of two issues with spans, the one that starts
first has the span that starts first, and the one that ends first has the span that ends
first.  A span starts before it ends, unless its issue has reversed columns on one line.
So issues sorted by where they start have spans sorted by where they start, whichever of
them have none. -/
theorem spans_in_order (d : Document) :
    (∀ i j s t, d.spanOf? i = some s → d.spanOf? j = some t →
        (i.start ≤ j.start → s.columnStart ≤ t.columnStart) ∧
          (i.stop ≤ j.stop → s.columnEnd ≤ t.columnEnd)) ∧
      (∀ i s, d.spanOf? i = some s →
        ¬ (i.line = i.effectiveEndLine ∧ i.effectiveEndColumn < i.column) →
          s.columnStart ≤ s.columnEnd) ∧
      ∀ issues : List Issue, issues.Pairwise (fun i j => i.start ≤ j.start) →
        (issues.filterMap d.spanOf?).Pairwise fun s t => s.columnStart ≤ t.columnStart := by
  refine ⟨?_, ?_, ?_⟩
  · intro i j s t hs ht
    exact ⟨columnStart_le_of_start_le hs ht, columnEnd_le_of_stop_le hs ht⟩
  · intro i s
    exact columnStart_le_columnEnd
  · intro issues hsorted
    rw [List.pairwise_filterMap]
    exact hsorted.imp fun hle s hs t ht => columnStart_le_of_start_le hs ht hle

/-- Two issues in a tab, one on a line that is not there, one behind its line and one
without a column on the next line. -/
theorem spans_in_order_of_tab :
    let issues : List Issue := [{ line := 1, column := 3 }, { line := 1, column := 8 },
      { line := 1, column := 99 }, { line := 2 }, { line := 7, column := 1 }]
    issues.Pairwise (fun i j => i.start ≤ j.start) ∧
      (issues.filterMap (ofString "\tx\r\ny").spanOf?).map Span.columnStart = [0, 0, 2, 4] ∧
      (issues.filterMap (ofString "\tx\r\ny").spanOf?).Pairwise
        (fun s t => s.columnStart ≤ t.columnStart) := by
  intro issues
  have hsorted : issues.Pairwise (fun i j => i.start ≤ j.start) := by
    simp [issues, Issue.start_le_start_iff]
  exact ⟨hsorted, by decide, (spans_in_order _).2.2 issues hsorted⟩

end Document

end Lintmark
