/-
Annotations by line and column.  The range of an annotation is fixed by the rows
of the first and the last line of its issue: its two ends are positions that
are read off these rows, and only then turned into offsets of the document.
-/
import Mathlib.Data.List.Forall2
import Lintmark.Annotation
import Lintmark.Proofs.Document.Columns
import Lintmark.Proofs.Document.Cut

namespace Lintmark

namespace Issue

/-- The first line, counted from zero. -/
def firstLine (i : Issue) : Nat :=
  i.line - 1

def lastLine (i : Issue) : Nat :=
  i.effectiveEndLine - 1

/-- The lines of an issue are in a document and in order. -/
structure Fits (i : Issue) (d : Document) : Prop where
  given : 1 ≤ i.line
  ordered : i.line ≤ i.effectiveEndLine
  inside : i.effectiveEndLine ≤ d.lineCount

variable {i : Issue} {d : Document}

theorem Fits.firstLine_lt (h : i.Fits d) : i.firstLine < d.lineCount := by
  have hgiven := h.given
  have hinside := Nat.le_trans h.ordered h.inside
  simp only [firstLine]
  omega

theorem Fits.lastLine_lt (h : i.Fits d) : i.lastLine < d.lineCount := by
  have hgiven := Nat.le_trans h.given h.ordered
  have hinside := h.inside
  simp only [lastLine]
  omega

theorem Fits.firstLine_le (h : i.Fits d) : i.firstLine ≤ i.lastLine :=
  Nat.sub_le_sub_right h.ordered 1

theorem Fits.firstLine_eq_iff (h : i.Fits d) :
    i.firstLine = i.lastLine ↔ i.line = i.effectiveEndLine := by
  have hgiven := h.given
  have hordered := h.ordered
  simp only [firstLine, lastLine]
  omega

end Issue

/-- The number of spaces and tabs that a row starts with. -/
def indentation (row : List Char) : Nat :=
  (row.takeWhile Document.isIndent).length

theorem indentation_le_length (row : List Char) :
    indentation row ≤ row.length :=
  (List.takeWhile_sublist _).length_le

namespace Document

variable {d : Document} {i : Issue}

def offsetAt (d : Document) (p : Position) : Nat :=
  d.lineStart p.line + p.column

/-- The document has the line, and its row reaches to the column. -/
structure Reaches (d : Document) (p : Position) : Prop where
  line_lt : p.line < d.lineCount
  column_le : p.column ≤ (d.row p.line).length

theorem positionOf_offsetAt {p : Position} (h : d.Reaches p) :
    d.positionOf (d.offsetAt p) = p :=
  positionOf_add h.line_lt h.column_le

theorem offsetAt_le_lineEnd {p : Position} (h : d.Reaches p) :
    d.offsetAt p ≤ d.lineEnd p.line := by
  rw [← lineStart_add_row_length h.line_lt]
  exact Nat.add_le_add_left h.column_le _

/-- The column of the first line where an issue starts. -/
def startColumn (d : Document) (i : Issue) : Nat :=
  columnIn (d.row i.firstLine) i.column

/-- The column of the last line where an issue ends. -/
def endColumn (d : Document) (i : Issue) : Nat :=
  columnIn (d.row i.lastLine) i.effectiveEndColumn

/-- The column of the first line where the highlight of whole lines starts:
behind the indentation, unless nothing but indentation is there. -/
def indentColumn (d : Document) (i : Issue) : Nat :=
  if i.firstLine = i.lastLine ∧
      indentation (d.row i.firstLine) = (d.row i.firstLine).length then 0
  else indentation (d.row i.firstLine)

/-- Where the highlight of an issue starts. -/
def highlightStart (d : Document) (i : Issue) (wholeLine : Bool) :
    Position where
  line := i.firstLine
  column :=
    if wholeLine then d.indentColumn i
    else if i.firstLine = i.lastLine then min (d.startColumn i) (d.endColumn i)
    else d.startColumn i

def highlightStop (d : Document) (i : Issue) (wholeLine : Bool) : Position where
  line := i.lastLine
  column :=
    if wholeLine then (d.row i.lastLine).length
    else if i.firstLine = i.lastLine then max (d.startColumn i) (d.endColumn i)
    else d.endColumn i

theorem startColumn_le (d : Document) (i : Issue) :
    d.startColumn i ≤ (d.row i.firstLine).length :=
  columnIn_le_length _ _

theorem endColumn_le (d : Document) (i : Issue) :
    d.endColumn i ≤ (d.row i.lastLine).length :=
  columnIn_le_length _ _

theorem indentColumn_le (d : Document) (i : Issue) :
    d.indentColumn i ≤ (d.row i.firstLine).length := by
  rw [indentColumn]
  split
  · exact Nat.zero_le _
  · exact indentation_le_length _

theorem reaches_highlightStart (h : i.Fits d) (wholeLine : Bool) :
    d.Reaches (d.highlightStart i wholeLine) where
  line_lt := h.firstLine_lt
  column_le := by
    have hstart := d.startColumn_le i
    have hindent := d.indentColumn_le i
    simp only [highlightStart]
    split
    · exact hindent
    · split
      · exact Nat.le_trans (Nat.min_le_left _ _) hstart
      · exact hstart

theorem reaches_highlightStop (h : i.Fits d) (wholeLine : Bool) :
    d.Reaches (d.highlightStop i wholeLine) where
  line_lt := h.lastLine_lt
  column_le := by
    have hstart := d.startColumn_le i
    have hend := d.endColumn_le i
    simp only [highlightStop]
    split
    · exact Nat.le_refl _
    · split
      · rename_i hsame
        rw [hsame] at hstart
        exact Nat.max_le.2 ⟨hstart, hend⟩
      · exact hend

/-- A highlight is never inverted. -/
theorem highlightStart_le_highlightStop (h : i.Fits d) (wholeLine : Bool) :
    d.offsetAt (d.highlightStart i wholeLine) ≤
      d.offsetAt (d.highlightStop i wholeLine) := by
  rcases Nat.lt_or_eq_of_le h.firstLine_le with hlt | hsame
  · -- The first line ends before the last one starts.
    have hstart := offsetAt_le_lineEnd (reaches_highlightStart h wholeLine)
    have hbetween := lineEnd_lt_lineStart_of_lt hlt h.lastLine_lt
    simp only [highlightStart, highlightStop, offsetAt] at hstart ⊢
    omega
  · have hindent := d.indentColumn_le i
    simp only [highlightStart, highlightStop, offsetAt, hsame, if_true]
      at hindent ⊢
    split <;> omega

theorem isSome_spanOf?_iff : (d.spanOf? i).isSome ↔ i.Fits d := by
  have hfits : i.Fits d ↔
      1 ≤ i.line ∧ i.line ≤ i.effectiveEndLine ∧
        i.effectiveEndLine ≤ d.lineCount :=
    ⟨fun h => ⟨h.given, h.ordered, h.inside⟩, fun h => ⟨h.1, h.2.1, h.2.2⟩⟩
  rw [hfits, spanOf?]
  split
  · rename_i first last hline hend
    split <;> simp <;> omega
  · rename_i hunset
    -- One of the two lines is zero.
    have hzero : i.line = 0 ∨ i.effectiveEndLine = 0 := by
      by_contra hboth
      exact hunset (i.line - 1) (i.effectiveEndLine - 1) (by omega) (by omega)
    simp only [Option.isSome_none, Bool.false_eq_true, false_iff]
    omega

theorem spanOf?_of_fits (h : i.Fits d) :
    d.spanOf? i = some {
      lineStart := d.lineStart i.firstLine
      lineEnd := d.lineEnd i.lastLine
      columnStart := d.lineStart i.firstLine + d.startColumn i
      columnEnd := d.lineStart i.lastLine + d.endColumn i } := by
  obtain ⟨hgiven, hordered, hinside⟩ := h
  have hfirst : i.line = i.firstLine + 1 := (Nat.sub_add_cancel hgiven).symm
  have hlast : i.effectiveEndLine = i.lastLine + 1 :=
    (Nat.sub_add_cancel (Nat.le_trans hgiven hordered)).symm
  have hvalid : ¬ (i.firstLine ≥ d.lineCount ∨ i.lastLine ≥ d.lineCount ∨
      i.lastLine < i.firstLine) := by omega
  rw [spanOf?, hfirst, hlast]
  simp only [hvalid, if_false]
  rw [landing_eq (by omega), landing_eq (by omega)]
  rfl

theorem Follows.takeWhile_isIndent {row after : List Char}
    (h : Follows row after) :
    after.takeWhile isIndent = [] := by
  cases h <;> rfl

/-- A blank search ends with the row that it starts in: no terminator starts
with a space or a tab. -/
theorem Cut.takeWhile_isIndent {line : Nat} {before row after : List Char}
    (h : d.Cut line before row after) :
    (d.chars.drop (d.lineStart line)).takeWhile isIndent =
      row.takeWhile isIndent := by
  rw [h.lineStart_eq, h.chars_eq, List.drop_left, List.takeWhile_append,
    h.follows.takeWhile_isIndent]
  split
  · rename_i hall
    rw [List.append_nil]
    exact ((List.takeWhile_prefix _).eq_of_length hall).symm
  · rfl

theorem firstNonIndent_eq (h : i.Fits d) :
    d.firstNonIndent (d.lineStart i.firstLine) (d.lineEnd i.lastLine) =
      d.lineStart i.firstLine + d.indentColumn i := by
  have hrow := lineStart_add_row_length h.firstLine_lt
  have hle := indentation_le_length (d.row i.firstLine)
  rw [firstNonIndent, (d.cut h.firstLine_lt).takeWhile_isIndent, indentColumn]
  have hwidth : ((d.row i.firstLine).takeWhile isIndent).length =
      indentation (d.row i.firstLine) := rfl
  simp only [hwidth]
  rcases Nat.lt_or_eq_of_le h.firstLine_le with hlt | hsame
  · have hbetween := lineEnd_lt_lineStart_of_lt hlt h.lastLine_lt
    have hlast := lineStart_le_lineEnd h.lastLine_lt
    have hne : i.firstLine ≠ i.lastLine := Nat.ne_of_lt hlt
    rw [if_pos (by omega), if_neg (fun hboth => hne hboth.1)]
  · rw [← hsame]
    by_cases hall : indentation (d.row i.firstLine) = (d.row i.firstLine).length
    · rw [if_neg (by omega), if_pos ⟨rfl, hall⟩, Nat.add_zero]
    · rw [if_pos (by omega), if_neg (fun hboth => hall hboth.2)]

/-- The mark stands behind a line when the issue is on one line and starts
behind its row. -/
theorem columnStart_eq_lineEnd_iff (h : i.Fits d) :
    d.lineStart i.firstLine + d.startColumn i = d.lineEnd i.lastLine ↔
      i.firstLine = i.lastLine ∧
        d.startColumn i = (d.row i.firstLine).length := by
  have hrow := lineStart_add_row_length h.firstLine_lt
  have hstart := d.startColumn_le i
  rcases Nat.lt_or_eq_of_le h.firstLine_le with hlt | hsame
  · have hbetween := lineEnd_lt_lineStart_of_lt hlt h.lastLine_lt
    have hlast := lineStart_le_lineEnd h.lastLine_lt
    omega
  · rw [← hsame]
    omega

/-- Exact columns are put in order: the start is the lesser of their offsets. -/
theorem offsetAt_highlightStart_exact (h : i.Fits d) :
    d.offsetAt (d.highlightStart i false) =
      min (d.lineStart i.firstLine + d.startColumn i)
        (d.lineStart i.lastLine + d.endColumn i) := by
  simp only [offsetAt, highlightStart, Bool.false_eq_true, if_false]
  rcases Nat.lt_or_eq_of_le h.firstLine_le with hlt | hsame
  · have hstart := d.startColumn_le i
    have hrow := lineStart_add_row_length h.firstLine_lt
    have hbetween := lineEnd_lt_lineStart_of_lt hlt h.lastLine_lt
    rw [if_neg (Nat.ne_of_lt hlt), Nat.min_eq_left (by omega)]
  · rw [if_pos hsame, ← hsame, Nat.add_min_add_left]

/-- The end is the greater of the two offsets. -/
theorem offsetAt_highlightStop_exact (h : i.Fits d) :
    d.offsetAt (d.highlightStop i false) =
      max (d.lineStart i.firstLine + d.startColumn i)
        (d.lineStart i.lastLine + d.endColumn i) := by
  simp only [offsetAt, highlightStop, Bool.false_eq_true, if_false]
  rcases Nat.lt_or_eq_of_le h.firstLine_le with hlt | hsame
  · have hstart := d.startColumn_le i
    have hrow := lineStart_add_row_length h.firstLine_lt
    have hbetween := lineEnd_lt_lineStart_of_lt hlt h.lastLine_lt
    rw [if_neg (Nat.ne_of_lt hlt), Nat.max_eq_right (by omega)]
  · rw [if_pos hsame, ← hsame, Nat.add_max_add_left]

theorem offsetAt_highlightStop_wholeLine (h : i.Fits d) :
    d.offsetAt (d.highlightStop i true) = d.lineEnd i.lastLine :=
  lineStart_add_row_length h.lastLine_lt

/-- The annotation of an issue that fits, its range given by positions. -/
theorem annotate?_of_fits (h : i.Fits d) (o : AnnotationOptions) :
    d.annotate? o i = some {
      start := d.offsetAt (d.highlightStart i o.wholeLine)
      stop := d.offsetAt (d.highlightStop i o.wholeLine)
      severity := .ofLevel i.level o.demote
      message := i.formatted
      code := i.displayCode
      source := annotationSource
      atLineEnd := decide (i.firstLine = i.lastLine ∧
        d.startColumn i = (d.row i.firstLine).length) } := by
  have hatEnd := columnStart_eq_lineEnd_iff h
  rw [annotate?, spanOf?_of_fits h, Option.map_some, highlight]
  simp only [← hatEnd, firstNonIndent_eq h]
  cases o.wholeLine with
  | true =>
      rw [offsetAt_highlightStop_wholeLine h]
      rfl
  | false =>
      rw [offsetAt_highlightStart_exact h, offsetAt_highlightStop_exact h]
      rfl

theorem isSome_annotate?_iff {o : AnnotationOptions} :
    (d.annotate? o i).isSome ↔ i.Fits d := by
  rw [annotate?, Option.isSome_map, isSome_spanOf?_iff]

theorem fits_of_annotate? {o : AnnotationOptions} {a : Annotation}
    (h : d.annotate? o i = some a) : i.Fits d := by
  rw [← isSome_annotate?_iff (o := o), h]
  rfl

/-- The annotations stand in the order of the issues that have one. -/
theorem forall₂_annotations (d : Document) (o : AnnotationOptions) (issues : List Issue) :
    List.Forall₂ (fun i a => d.annotate? o i = some a)
      (issues.filter fun i => (d.annotate? o i).isSome) (d.annotations o issues) := by
  induction issues with
  | nil => exact .nil
  | cons i issues ih =>
      rw [annotations, List.filter_cons, List.filterMap_cons]
      cases ha : d.annotate? o i with
      | none => exact ih
      | some a => exact .cons ha ih

end Document

end Lintmark
