/-
Marks behind a line.  An annotation asks for one when its issue is on one line and
starts behind everything that is shown there, whatever is highlighted.
-/
import Lintmark.Proofs.Annotation.Placement

namespace Lintmark

namespace Document

/-- The mark stands behind the line exactly when the issue begins and ends on it and
its start column is greater than the width of its row; a column that was not given
counts as the first one.  So no issue over several lines is marked there, and every
issue on an empty line is. -/
theorem atLineEnd_iff_width_lt_column (d : Document) (o : AnnotationOptions)
    (i : Issue) (h : (d.spanOf? i).isSome) :
    ∃ a, d.annotate? o i = some a ∧
      (a.atLineEnd = true ↔
        i.line = i.effectiveEndLine ∧
          displayWidths (d.row (i.line - 1)) < max i.column 1) ∧
      (i.line ≠ i.effectiveEndLine → a.atLineEnd = false) ∧
      (i.line = i.effectiveEndLine → d.row (i.line - 1) = [] →
        a.atLineEnd = true) := by
  have hfits : i.Fits d := isSome_spanOf?_iff.mp h
  refine ⟨_, annotate?_of_fits hfits o, ?_⟩
  have hmark : decide (i.firstLine = i.lastLine ∧
        d.startColumn i = (d.row i.firstLine).length) = true ↔
      i.line = i.effectiveEndLine ∧
        displayWidths (d.row (i.line - 1)) < max i.column 1 := by
    rw [decide_eq_true_iff, hfits.firstLine_eq_iff, startColumn,
      columnIn_eq_length_iff]
    rfl
  refine ⟨hmark, ?_, ?_⟩
  · intro hlines
    exact Bool.eq_false_iff.mpr fun hatEnd => hlines (hmark.mp hatEnd).1
  · intro hline hempty
    refine hmark.mpr ⟨hline, ?_⟩
    rw [hempty, displayWidths_nil]
    exact Nat.lt_of_lt_of_le Nat.one_pos (Nat.le_max_right i.column 1)

/-- A tab and a letter are nine columns wide, so that column ten is behind the line.
Over two lines the same column marks nothing. -/
theorem atLineEnd_iff_width_lt_column_of_tab :
    (((ofString "\tx\r\n\r\n").spanOf? { line := 1, column := 10 }).isSome ∧
      ∃ a, (ofString "\tx\r\n\r\n").annotate? {} { line := 1, column := 10 } = some a ∧
        a.atLineEnd = true) ∧
    ((ofString "\tx\r\n\r\n").spanOf? { line := 1, endLine := 2, column := 10 }).isSome ∧
      ∃ a, (ofString "\tx\r\n\r\n").annotate? { wholeLine := true }
          { line := 1, endLine := 2, column := 10 } = some a ∧
        a.atLineEnd = false := by
  obtain ⟨a, ha, hbehind, -, -⟩ := atLineEnd_iff_width_lt_column
    (ofString "\tx\r\n\r\n") {} { line := 1, column := 10 } (by decide)
  obtain ⟨b, hb, -, hlines, -⟩ := atLineEnd_iff_width_lt_column
    (ofString "\tx\r\n\r\n") { wholeLine := true }
    { line := 1, endLine := 2, column := 10 } (by decide)
  exact ⟨⟨by decide, a, ha, hbehind.mpr ⟨rfl, by decide⟩⟩,
    by decide, b, hb, hlines (by decide)⟩

end Document

end Lintmark
