/-
Rows: the text of a line without its terminator.  A row is fixed by the text in
front of it and the text behind it, an offset is content or terminator of its
line, and an offset inside a row leads back to its line and column.
-/
import Lintmark.Proofs.Document.Lines

namespace Lintmark

namespace Document

variable {d : Document} {line offset column : Nat}

/-- A range has the characters up to its end, as far as the document has them. -/
theorem length_slice {start stop : Nat} :
    (d.slice start stop).length = min stop d.charCount - start := by
  rw [slice, List.length_take, List.length_drop, charCount]
  omega

theorem take_slice {start stop k : Nat} (hk : start + k ≤ stop) :
    (d.slice start stop).take k = d.slice start (start + k) := by
  have hmin : min k (stop - start) = start + k - start := by omega
  rw [slice, slice, List.take_take, hmin]

theorem slice_min {start stop : Nat} :
    d.slice start (min stop d.charCount) = d.slice start stop := by
  rw [slice, slice, List.take_eq_take_iff, List.length_drop, charCount]
  omega

/-- The characters of a line without its terminator. -/
def row (d : Document) (line : Nat) : List Char :=
  d.slice (d.lineStart line) (d.lineEnd line)

theorem lineText?_eq (hline : line < d.lineCount) :
    d.lineText? line = some (String.ofList (d.row line)) := by
  simp [lineText?, hline, row]

theorem lineStart_add_row_length (hline : line < d.lineCount) :
    d.lineStart line + (d.row line).length = d.lineEnd line := by
  have hstart := lineStart_le_lineEnd hline
  have hend := lineEnd_le_charCount hline
  rw [row, length_slice]
  omega

theorem charAt?_add (hcolumn : column < (d.row line).length) :
    d.charAt? (d.lineStart line + column) = (d.row line)[column]? := by
  simp only [row, slice, List.length_take] at hcolumn
  rw [row, slice, List.getElem?_take_of_lt (by omega), List.getElem?_drop,
    charAt?]

theorem lineOf_add (hline : line < d.lineCount)
    (hcolumn : column ≤ (d.row line).length) :
    d.lineOf (d.lineStart line + column) = line := by
  have hrow := lineStart_add_row_length hline
  exact lineOf_eq hline (Nat.le_add_right _ _) (by omega)

/-- An offset in the document is on the line that its line feeds tell, as far
behind the start of that line as the offset is. -/
theorem positionOf_eq (hoffset : offset ≤ d.charCount) :
    d.positionOf offset =
      ⟨d.lineOf offset, offset - d.lineStart (d.lineOf offset)⟩ := by
  rw [positionOf, Nat.min_eq_left hoffset]
  rfl

/-- A column inside a row, or right behind it, is read back from its offset. -/
theorem positionOf_add (hline : line < d.lineCount)
    (hcolumn : column ≤ (d.row line).length) :
    d.positionOf (d.lineStart line + column) = ⟨line, column⟩ := by
  have hrow := lineStart_add_row_length hline
  have hend := lineEnd_le_charCount hline
  rw [positionOf_eq (by omega), lineOf_add hline hcolumn,
    Nat.add_sub_cancel_left]

/-- The character at an offset belongs to a terminator: a line feed, or a
carriage return right before one. -/
def IsTerminator (d : Document) (offset : Nat) : Prop :=
  d.charAt? offset = some '\n' ∨
    d.charAt? offset = some '\r' ∧ d.charAt? (offset + 1) = some '\n'

/-- The character at an offset is on a line and not in its terminator. -/
def IsContent (d : Document) (line offset : Nat) : Prop :=
  offset < d.charCount ∧ d.lineOf offset = line ∧ ¬ d.IsTerminator offset

theorem charAt?_lt_charCount {c : Char} (h : d.charAt? offset = some c) :
    offset < d.charCount :=
  (List.getElem?_eq_some_iff.1 h).1

theorem IsTerminator.lt_charCount (h : d.IsTerminator offset) :
    offset < d.charCount := by
  rcases h with hfeed | ⟨hreturn, -⟩
  · exact charAt?_lt_charCount hfeed
  · exact charAt?_lt_charCount hreturn

/-- The line feed of a line stands right before the next line. -/
theorem charAt?_eq_feed_iff_lineStart :
    d.charAt? offset = some '\n' ↔
      d.lineOf offset + 1 < d.lineCount ∧
        d.lineStart (d.lineOf offset + 1) = offset + 1 := by
  rw [charAt?_eq_feed_iff]
  constructor
  · intro hnext
    have hinner : d.lineOf offset + 1 < d.lineCount := by
      rw [← hnext]
      exact d.lineOf_lt_lineCount _
    have hle : d.lineStart (d.lineOf offset + 1) ≤ offset + 1 :=
      (lineStart_le_iff hinner).2 (Nat.le_of_eq hnext.symm)
    have hlt : offset < d.lineStart (d.lineOf offset + 1) :=
      (lt_lineStart_iff hinner).2 (Nat.lt_succ_self _)
    exact ⟨hinner, by omega⟩
  · rintro ⟨hinner, hstart⟩
    rw [← hstart]
    exact lineOf_lineStart hinner

/-- The terminator of a line is what stands from its end on. -/
theorem isTerminator_iff (hoffset : offset < d.charCount) :
    d.IsTerminator offset ↔ d.lineEnd (d.lineOf offset) ≤ offset := by
  have hline := d.lineOf_lt_lineCount offset
  have hstart := d.lineStart_lineOf_le offset
  have hstep := d.lineOf_succ offset
  rw [IsTerminator, charAt?_eq_feed_iff_lineStart,
    charAt?_eq_feed_iff_lineStart]
  cases lineEnding hline with
  | document hlast hstop =>
      have hnext := d.lineOf_lt_lineCount (offset + 1)
      constructor
      · rintro (⟨hinner, -⟩ | ⟨-, hinner, -⟩)
        · omega
        · split at hstep <;> omega
      · omega
  | feed hinner hfeed hbare =>
      constructor
      · rintro (⟨-, hnext⟩ | ⟨hreturn, -, hnext⟩)
        · omega
        · -- A carriage return here would stand right before the line's end.
          have hsame : d.lineOf (offset + 1) = d.lineOf offset := by
            simpa [hreturn] using hstep
          rw [hsame] at hnext
          have hoff : d.lineEnd (d.lineOf offset) - 1 = offset := by omega
          refine absurd ?_ (hbare (by omega))
          rw [hoff]
          exact hreturn
      · intro hend
        have hlt : offset < d.lineStart (d.lineOf offset + 1) :=
          (lt_lineStart_iff hinner).2 (Nat.lt_succ_self _)
        exact Or.inl ⟨hinner, by omega⟩
  | carriage hinner hnext hreturn hfeed =>
      have hlt : offset < d.lineStart (d.lineOf offset + 1) :=
        (lt_lineStart_iff hinner).2 (Nat.lt_succ_self _)
      constructor
      · rintro (⟨-, hend⟩ | ⟨hchar, -, hend⟩)
        · omega
        · have hsame : d.lineOf (offset + 1) = d.lineOf offset := by
            simpa [hchar] using hstep
          rw [hsame] at hend
          omega
      · intro hend
        by_cases hat : offset = d.lineEnd (d.lineOf offset)
        · refine Or.inr ⟨by rw [hat]; exact hreturn, ?_⟩
          rw [← charAt?_eq_feed_iff_lineStart, hat]
          exact hfeed
        · exact Or.inl ⟨hinner, by omega⟩

/-- The content of a line stands from its start to its end. -/
theorem isContent_iff (hline : line < d.lineCount) :
    d.IsContent line offset ↔
      d.lineStart line ≤ offset ∧ offset < d.lineEnd line := by
  constructor
  · rintro ⟨hoffset, rfl, hcontent⟩
    rw [isTerminator_iff hoffset] at hcontent
    exact ⟨d.lineStart_lineOf_le offset, Nat.not_le.1 hcontent⟩
  · rintro ⟨hstart, hend⟩
    have hoffset : offset < d.charCount :=
      Nat.lt_of_lt_of_le hend (lineEnd_le_charCount hline)
    have hlineOf := lineOf_eq hline hstart (Nat.le_of_lt hend)
    refine ⟨hoffset, hlineOf, ?_⟩
    rw [isTerminator_iff hoffset, hlineOf]
    exact Nat.not_le.2 hend

end Document

end Lintmark
