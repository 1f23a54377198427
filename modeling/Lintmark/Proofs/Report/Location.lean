/-
The location that is printed for an annotation: the line is the line of the
issue, and the column is the place of the range's start in that line.
-/
import Lintmark.Report
import Lintmark.Proofs.Annotation.Placement

namespace Lintmark

/-- The line of the issue is printed, with a column inside that line or right
behind it, and the two name the start of the range. -/
theorem humanLine_location (path : Path) (d : Document) (o : AnnotationOptions)
    (i : Issue) (a : Annotation) (h : d.annotate? o i = some a) :
    ∃ text column, d.lineText? (i.line - 1) = some text ∧
      1 ≤ column ∧ column ≤ text.length + 1 ∧
      d.lineStart (i.line - 1) + (column - 1) = a.start ∧
      humanLine path d a =
        path.text ++ ":" ++ toString i.line ++ ":" ++ toString column ++ ": " ++
          a.severity.label ++ ": " ++ a.message := by
  have hfits := Document.fits_of_annotate? h
  have hreaches := Document.reaches_highlightStart hfits o.wholeLine
  rw [Document.annotate?_of_fits hfits, Option.some.injEq] at h
  have hposition : d.positionOf a.start = d.highlightStart i o.wholeLine := by
    rw [← h]
    exact Document.positionOf_offsetAt hreaches
  have hline : (d.highlightStart i o.wholeLine).line + 1 = i.line :=
    Nat.sub_add_cancel hfits.given
  refine ⟨String.ofList (d.row i.firstLine),
    (d.highlightStart i o.wholeLine).column + 1,
    Document.lineText?_eq hfits.firstLine_lt, Nat.le_add_left _ _, ?_, ?_, ?_⟩
  · rw [String.length_ofList]
    exact Nat.add_le_add_right hreaches.column_le 1
  · rw [← h]
    rfl
  · simp only [humanLine, hposition, hline]

/-- Whole lines of which the first is blank: the range starts at its terminator,
right behind the two characters of the line. -/
theorem humanLine_location_of_blank_line :
    (Document.ofString "#\n \t\r\n\r\nfi").annotate? { wholeLine := true }
        { line := 2, endLine := 4, column := 1, level := "warning",
          message := "m" } =
      some ⟨4, 10, .warning, "m [none]", none, "shellcheck", false⟩ ∧
    ∃ text column,
      (Document.ofString "#\n \t\r\n\r\nfi").lineText? 1 = some text ∧
      1 ≤ column ∧ column ≤ text.length + 1 ∧
      (Document.ofString "#\n \t\r\n\r\nfi").lineStart 1 + (column - 1) = 4 ∧
      humanLine ⟨"a.sh"⟩ (Document.ofString "#\n \t\r\n\r\nfi")
          ⟨4, 10, .warning, "m [none]", none, "shellcheck", false⟩ =
        "a.sh" ++ ":" ++ toString 2 ++ ":" ++ toString column ++ ": " ++
          Severity.warning.label ++ ": " ++ "m [none]" :=
  have hannotate : (Document.ofString "#\n \t\r\n\r\nfi").annotate?
      { wholeLine := true }
      { line := 2, endLine := 4, column := 1, level := "warning",
        message := "m" } =
        some ⟨4, 10, .warning, "m [none]", none, "shellcheck", false⟩ := by
    decide
  ⟨hannotate, humanLine_location ⟨"a.sh"⟩ _ _ _ _ hannotate⟩

end Lintmark
