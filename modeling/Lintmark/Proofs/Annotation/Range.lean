/-
The range of an annotation: it keeps to the lines of its issue, and with exact
columns it holds the characters whose right edges lie between these columns.
-/
import Lintmark.Proofs.Annotation.Placement

namespace Lintmark

namespace Document

variable {d : Document} {i : Issue} {line offset : Nat}

/-- What lies left of a column of a line is the content whose right edge lies
before that column. -/
theorem lt_lineStart_add_columnIn_iff (hline : line < d.lineCount)
    (column : Nat) (hstart : d.lineStart line ≤ offset) :
    offset < d.lineStart line + columnIn (d.row line) column ↔
      d.IsContent line offset ∧ d.rightEdge offset < column := by
  obtain ⟨k, rfl⟩ := Nat.exists_eq_add_of_le hstart
  have hcontent : d.IsContent line (d.lineStart line + k) ↔
      k < (d.row line).length := by
    rw [isContent_iff hline, ← lineStart_add_row_length hline]
    omega
  rw [Nat.add_lt_add_iff_left, lt_columnIn_iff, hcontent]
  constructor
  · rintro ⟨hk, hedge⟩
    exact ⟨hk, by rwa [rightEdge_add hline hk]⟩
  · rintro ⟨hk, hedge⟩
    exact ⟨hk, by rwa [rightEdge_add hline hk] at hedge⟩

theorem IsContent.lineStart_le (h : d.IsContent line offset) :
    d.lineStart line ≤ offset := by
  obtain ⟨-, rfl, -⟩ := h
  exact d.lineStart_lineOf_le offset

/-- The content of a line from one column to another. -/
theorem between_columns_iff (hline : line < d.lineCount) (left right : Nat) :
    d.lineStart line + columnIn (d.row line) left ≤ offset ∧
        offset < d.lineStart line + columnIn (d.row line) right ↔
      d.IsContent line offset ∧ left ≤ d.rightEdge offset ∧
        d.rightEdge offset < right := by
  constructor
  · rintro ⟨hleft, hright⟩
    have hstart : d.lineStart line ≤ offset :=
      Nat.le_trans (Nat.le_add_right _ _) hleft
    rw [lt_lineStart_add_columnIn_iff hline _ hstart] at hright
    rw [← Nat.not_lt, lt_lineStart_add_columnIn_iff hline _ hstart] at hleft
    exact ⟨hright.1, Nat.not_lt.1 fun hedge => hleft ⟨hright.1, hedge⟩,
      hright.2⟩
  · rintro ⟨hcontent, hleft, hright⟩
    refine ⟨?_, (lt_lineStart_add_columnIn_iff hline _ hcontent.lineStart_le).2
      ⟨hcontent, hright⟩⟩
    rw [← Nat.not_lt,
      lt_lineStart_add_columnIn_iff hline _ hcontent.lineStart_le]
    exact fun hbefore => Nat.not_lt.2 hleft hbefore.2

/-- The rest of a line from a column on, up to the next line. -/
theorem from_column_iff (hinner : line + 1 < d.lineCount) (left offset : Nat) :
    d.lineStart line + columnIn (d.row line) left ≤ offset ∧
        offset < d.lineStart (line + 1) ↔
      (d.IsContent line offset ∧ left ≤ d.rightEdge offset) ∨
        (d.lineOf offset = line ∧ d.IsTerminator offset) := by
  have hline := Nat.lt_of_succ_lt hinner
  have hrow := lineStart_add_row_length hline
  have hcolumn := columnIn_le_length (d.row line) left
  constructor
  · rintro ⟨hleft, hright⟩
    have hstart : d.lineStart line ≤ offset :=
      Nat.le_trans (Nat.le_add_right _ _) hleft
    have hge := (lineStart_le_iff hline).1 hstart
    have hlt := (lt_lineStart_iff hinner).1 hright
    have hlineOf : d.lineOf offset = line := by omega
    by_cases hterminator : d.IsTerminator offset
    · exact Or.inr ⟨hlineOf, hterminator⟩
    · have hoffset := Nat.lt_of_lt_of_le hright (lineStart_le_charCount hinner)
      have hcontent : d.IsContent line offset := ⟨hoffset, hlineOf, hterminator⟩
      refine Or.inl ⟨hcontent, Nat.not_lt.1 fun hedge => ?_⟩
      exact Nat.not_lt.2 hleft
        ((lt_lineStart_add_columnIn_iff hline _ hstart).2 ⟨hcontent, hedge⟩)
  · rintro (⟨hcontent, hleft⟩ | ⟨hlineOf, hterminator⟩)
    · have hright := ((isContent_iff hline).1 hcontent).2
      have hnext := lineEnd_lt_lineStart hinner
      refine ⟨Nat.not_lt.1 fun hbefore => ?_, by omega⟩
      rw [lt_lineStart_add_columnIn_iff hline _ hcontent.lineStart_le] at hbefore
      exact Nat.not_lt.2 hleft hbefore.2
    · have hend := (isTerminator_iff hterminator.lt_charCount).1 hterminator
      rw [hlineOf] at hend
      exact ⟨by omega, (lt_lineStart_iff hinner).2 (by omega)⟩

/-- The lines strictly between two lines. -/
theorem between_lines_iff {first last : Nat} (hinner : first + 1 < d.lineCount)
    (hlast : last < d.lineCount) (offset : Nat) :
    d.lineStart (first + 1) ≤ offset ∧ offset < d.lineStart last ↔
      offset < d.charCount ∧ first < d.lineOf offset ∧
        d.lineOf offset < last := by
  constructor
  · rintro ⟨hstart, hstop⟩
    exact ⟨Nat.lt_of_lt_of_le hstop (lineStart_le_charCount hlast),
      (lineStart_le_iff hinner).1 hstart, (lt_lineStart_iff hlast).1 hstop⟩
  · rintro ⟨-, hafter, hbefore⟩
    exact ⟨(lineStart_le_iff hinner).2 hafter,
      (lt_lineStart_iff hlast).2 hbefore⟩

/-- The content of a line before a column. -/
theorem to_column_iff (hline : line < d.lineCount) (right offset : Nat) :
    d.lineStart line ≤ offset ∧
      offset < d.lineStart line + columnIn (d.row line) right ↔
      d.IsContent line offset ∧ d.rightEdge offset < right := by
  constructor
  · rintro ⟨hstart, hright⟩
    exact (lt_lineStart_add_columnIn_iff hline _ hstart).1 hright
  · intro hcontent
    exact ⟨hcontent.1.lineStart_le,
      (lt_lineStart_add_columnIn_iff hline _ hcontent.1.lineStart_le).2 hcontent⟩

/-- The characters that an issue means.  On one line these are the content
characters whose right edges lie between the two columns, in either order.
Over several lines they are the content of the first line from its column on,
its terminator, all characters of the lines between, and the content of the
last line up to its column. -/
def Means (d : Document) (i : Issue) (offset : Nat) : Prop :=
  if i.line = i.effectiveEndLine then
    d.IsContent (i.line - 1) offset ∧
      if i.column ≤ i.effectiveEndColumn then
        i.column ≤ d.rightEdge offset ∧
          d.rightEdge offset < i.effectiveEndColumn
      else
        i.effectiveEndColumn ≤ d.rightEdge offset ∧
          d.rightEdge offset < i.column
  else
    (d.IsContent (i.line - 1) offset ∧ i.column ≤ d.rightEdge offset) ∨
      (d.lineOf offset = i.line - 1 ∧ d.IsTerminator offset) ∨
      (offset < d.charCount ∧ i.line - 1 < d.lineOf offset ∧
        d.lineOf offset < i.effectiveEndLine - 1) ∨
      (d.IsContent (i.effectiveEndLine - 1) offset ∧
        d.rightEdge offset < i.effectiveEndColumn)

/-- Characters of one line between two columns that may be reversed. -/
theorem mem_highlight_of_firstLine_eq (h : i.Fits d)
    (hsame : i.firstLine = i.lastLine) :
    d.offsetAt (d.highlightStart i false) ≤ offset ∧
        offset < d.offsetAt (d.highlightStop i false) ↔
      d.IsContent i.firstLine offset ∧
        if i.column ≤ i.effectiveEndColumn then
          i.column ≤ d.rightEdge offset ∧
            d.rightEdge offset < i.effectiveEndColumn
        else
          i.effectiveEndColumn ≤ d.rightEdge offset ∧
            d.rightEdge offset < i.column := by
  have hline := h.firstLine_lt
  simp only [offsetAt, highlightStart, highlightStop, startColumn, endColumn,
    ← hsame, Bool.false_eq_true, if_true, if_false]
  split
  · rename_i hordered
    have hmono := columnIn_mono (d.row i.firstLine) hordered
    rw [Nat.min_eq_left hmono, Nat.max_eq_right hmono]
    exact between_columns_iff hline _ _
  · rename_i hreversed
    have hmono := columnIn_mono (d.row i.firstLine) (Nat.le_of_not_le hreversed)
    rw [Nat.min_eq_right hmono, Nat.max_eq_left hmono]
    exact between_columns_iff hline _ _

/-- Characters from a column of one line to a column of a later one: the range
is cut at the two line starts between them. -/
theorem mem_highlight_of_firstLine_lt (h : i.Fits d)
    (hlt : i.firstLine < i.lastLine) :
    d.offsetAt (d.highlightStart i false) ≤ offset ∧
        offset < d.offsetAt (d.highlightStop i false) ↔
      (d.IsContent i.firstLine offset ∧ i.column ≤ d.rightEdge offset) ∨
        (d.lineOf offset = i.firstLine ∧ d.IsTerminator offset) ∨
        (offset < d.charCount ∧ i.firstLine < d.lineOf offset ∧
          d.lineOf offset < i.lastLine) ∨
        (d.IsContent i.lastLine offset ∧
          d.rightEdge offset < i.effectiveEndColumn) := by
  have hlast := h.lastLine_lt
  have hinner : i.firstLine + 1 < d.lineCount := by omega
  have hfirstRow := lineStart_add_row_length h.firstLine_lt
  have hcolumn := d.startColumn_le i
  have hnext := lineEnd_lt_lineStart hinner
  have hlines : d.lineStart (i.firstLine + 1) ≤ d.lineStart i.lastLine :=
    (lineStart_le_iff hinner).2 (by rw [lineOf_lineStart hlast]; exact hlt)
  have hfirst := from_column_iff hinner i.column offset
  have hbetween := between_lines_iff hinner hlast offset
  have hend := to_column_iff hlast i.effectiveEndColumn offset
  simp only [offsetAt, highlightStart, highlightStop, Nat.ne_of_lt hlt,
    Bool.false_eq_true, if_false]
  simp only [startColumn, endColumn] at hcolumn ⊢
  rw [← or_assoc, ← hfirst, ← hbetween, ← hend]
  omega

/-- With exact columns the range of an annotation holds just the characters
that the issue means. -/
theorem mem_range_iff_means (d : Document) (demote : Bool) (i : Issue)
    (a : Annotation)
    (h : d.annotate? { wholeLine := false, demote } i = some a) (offset : Nat) :
    a.start ≤ offset ∧ offset < a.stop ↔ d.Means i offset := by
  have hfits := fits_of_annotate? h
  rw [annotate?_of_fits hfits, Option.some.injEq] at h
  subst h
  rw [Means]
  rcases Nat.lt_or_eq_of_le hfits.firstLine_le with hlt | hsame
  · have hne : i.line ≠ i.effectiveEndLine := fun heq =>
      Nat.ne_of_lt hlt (hfits.firstLine_eq_iff.2 heq)
    rw [if_neg hne]
    exact mem_highlight_of_firstLine_lt hfits hlt
  · rw [if_pos (hfits.firstLine_eq_iff.1 hsame)]
    exact mem_highlight_of_firstLine_eq hfits hsame

/-- Three lines that end in `\r\n`, the second one empty, and columns behind
a tab: the terminator of the empty line is meant. -/
theorem mem_range_iff_means_of_three_lines :
    (ofString "\tif\r\n\r\n x\ty\r\n").annotate?
      { wholeLine := false, demote := false }
        { line := 1, endLine := 3, column := 10, endColumn := 11 } =
      some ⟨2, 10, .info, " [none]", none, "shellcheck", false⟩ ∧
    (2 ≤ 6 ∧ 6 < 10 ↔
      (ofString "\tif\r\n\r\n x\ty\r\n").Means
        { line := 1, endLine := 3, column := 10, endColumn := 11 } 6) :=
  have hannotate : (ofString "\tif\r\n\r\n x\ty\r\n").annotate?
      { wholeLine := false, demote := false }
      { line := 1, endLine := 3, column := 10, endColumn := 11 } =
        some ⟨2, 10, .info, " [none]", none, "shellcheck", false⟩ := by decide
  ⟨hannotate, mem_range_iff_means _ _ _ _ hannotate 6⟩

/-- An issue is annotated exactly when its lines are in the document and in
order.  The range then stays between the start of the first line and the end
of the last one, and the terminator of the last line stands behind it. -/
theorem annotation_within_lines (d : Document) (o : AnnotationOptions)
    (i : Issue) :
    ((d.annotate? o i).isSome ↔
      1 ≤ i.line ∧ i.line ≤ i.effectiveEndLine ∧
        i.effectiveEndLine ≤ d.lineCount) ∧
    ∀ a, d.annotate? o i = some a →
      d.lineStart (i.line - 1) ≤ a.start ∧ a.start ≤ a.stop ∧
      a.stop ≤ d.lineEnd (i.effectiveEndLine - 1) ∧
      d.lineEnd (i.effectiveEndLine - 1) ≤ d.charCount ∧
      (∀ offset, a.start ≤ offset → offset < a.stop →
        i.line - 1 ≤ d.lineOf offset ∧
          d.lineOf offset ≤ i.effectiveEndLine - 1) ∧
      ∀ offset, offset < a.stop → d.lineOf offset = i.effectiveEndLine - 1 →
        ¬ d.IsTerminator offset := by
  constructor
  · rw [isSome_annotate?_iff]
    exact ⟨fun h => ⟨h.given, h.ordered, h.inside⟩,
      fun h => ⟨h.1, h.2.1, h.2.2⟩⟩
  · intro a ha
    have h := fits_of_annotate? ha
    rw [annotate?_of_fits h, Option.some.injEq] at ha
    subst ha
    have hstart : d.lineStart i.firstLine ≤
        d.offsetAt (d.highlightStart i o.wholeLine) := Nat.le_add_right _ _
    have hstop : d.offsetAt (d.highlightStop i o.wholeLine) ≤
        d.lineEnd i.lastLine :=
      offsetAt_le_lineEnd (reaches_highlightStop h o.wholeLine)
    have hcount := lineEnd_le_charCount h.lastLine_lt
    refine ⟨hstart, highlightStart_le_highlightStop h _, hstop, hcount, ?_, ?_⟩
    · intro offset hfrom hto
      refine ⟨(lineStart_le_iff h.firstLine_lt).1
        (Nat.le_trans hstart hfrom), ?_⟩
      have hlast := lineOf_eq h.lastLine_lt
        (lineStart_le_lineEnd h.lastLine_lt) (Nat.le_refl _)
      have hmono :=
        d.lineOf_mono (Nat.le_of_lt (Nat.lt_of_lt_of_le hto hstop))
      rwa [hlast] at hmono
    · intro offset hto hline hterminator
      have hbefore : offset < d.lineEnd i.lastLine :=
        Nat.lt_of_lt_of_le hto hstop
      rw [isTerminator_iff (by omega), hline] at hterminator
      exact Nat.not_lt.2 hterminator hbefore

/-- Reversed columns, the first one far behind the line. -/
theorem annotation_within_lines_of_reversed_columns :
    (ofString "a\tb\r\n").annotate? {}
      { line := 1, column := 99, endColumn := 2 } =
      some ⟨1, 3, .info, " [none]", none, "shellcheck", true⟩ ∧
    (ofString "a\tb\r\n").lineStart 0 ≤ 1 ∧ 1 ≤ 3 ∧
      3 ≤ (ofString "a\tb\r\n").lineEnd 0 ∧
    (ofString "a\tb\r\n").lineEnd 0 ≤ (ofString "a\tb\r\n").charCount := by
  have hannotate : (ofString "a\tb\r\n").annotate? {}
      { line := 1, column := 99, endColumn := 2 } =
        some ⟨1, 3, .info, " [none]", none, "shellcheck", true⟩ := by decide
  obtain ⟨hstart, hle, hstop, hcount, -, -⟩ :=
    (annotation_within_lines _ _ _).2 _ hannotate
  exact ⟨hannotate, hstart, hle, hstop, hcount⟩

end Document

end Lintmark
