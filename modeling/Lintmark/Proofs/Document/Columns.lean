/-
Display columns of a row.  The characters left of a column are those whose right
edge lies before it, so that a column lands on the first character that reaches
it, and behind the row when no character does.
-/
import Lintmark.Span
import Lintmark.Proofs.Document.Rows

namespace Lintmark

@[simp]
theorem displayWidths_nil : displayWidths [] = 0 := rfl

@[simp]
theorem displayWidths_cons (c : Char) (cs : List Char) :
    displayWidths (c :: cs) = displayWidth c + displayWidths cs := rfl

/-- The search stops at the first character whose right edge lies behind the
target. -/
theorem lt_cellAt?_getD_iff {cs : List Char} {target k : Nat} :
    k < (cellAt? cs target).getD cs.length ↔
      k < cs.length ∧ displayWidths (cs.take (k + 1)) ≤ target := by
  induction cs generalizing target k with
  | nil => simp [cellAt?]
  | cons c cs ih =>
      by_cases hcell : target < displayWidth c
      · simp [cellAt?, hcell]
        omega
      · have hsome : (cellAt? (c :: cs) target).getD (c :: cs).length =
            (cellAt? cs (target - displayWidth c)).getD cs.length + 1 := by
          cases hrest : cellAt? cs (target - displayWidth c) <;>
            simp [cellAt?, hcell, hrest]
        rw [hsome]
        cases k with
        | zero => simpa using Nat.not_lt.1 hcell
        | succ k =>
            rw [Nat.add_lt_add_iff_right, ih]
            simp only [List.length_cons, List.take_succ_cons,
              displayWidths_cons]
            omega

/-- The number of characters of a row left of a display column, counted from
one; a column that was not given has none. -/
def columnIn (row : List Char) : Nat → Nat
  | 0 => 0
  | target + 1 => (cellAt? row target).getD row.length

/-- A character is left of a column when its right edge is. -/
theorem lt_columnIn_iff {row : List Char} {column k : Nat} :
    k < columnIn row column ↔
      k < row.length ∧ displayWidths (row.take (k + 1)) < column := by
  cases column with
  | zero => simp [columnIn]
  | succ target => rw [columnIn, lt_cellAt?_getD_iff, Nat.lt_succ_iff]

theorem columnIn_le_length (row : List Char) (column : Nat) :
    columnIn row column ≤ row.length := by
  by_contra hlong
  exact Nat.lt_irrefl _ (lt_columnIn_iff.1 (Nat.not_le.1 hlong)).1

theorem columnIn_mono (row : List Char) {a b : Nat} (h : a ≤ b) :
    columnIn row a ≤ columnIn row b := by
  by_contra hless
  have hleft := lt_columnIn_iff.1 (Nat.not_le.1 hless)
  exact Nat.lt_irrefl _
    (lt_columnIn_iff.2 ⟨hleft.1, Nat.lt_of_lt_of_le hleft.2 h⟩)

theorem displayWidth_pos (c : Char) : 0 < displayWidth c := by
  rw [displayWidth]
  split
  · exact Nat.succ_pos 7
  · exact Nat.one_pos

/-- Every character is left of a column that the whole row does not reach.  On an
empty row that is every column. -/
theorem columnIn_eq_length_iff {row : List Char} {column : Nat} :
    columnIn row column = row.length ↔ displayWidths row < max column 1 := by
  have hle := columnIn_le_length row column
  cases row with
  | nil =>
      rw [List.length_nil, Nat.le_zero] at hle
      exact iff_of_true hle (Nat.lt_of_lt_of_le Nat.one_pos (Nat.le_max_right column 1))
  | cons c cs =>
      have hpos : 0 < displayWidths (c :: cs) :=
        Nat.lt_of_lt_of_le (displayWidth_pos c) (Nat.le_add_right _ _)
      have hlast : cs.length < columnIn (c :: cs) column ↔
          cs.length < (c :: cs).length ∧
            displayWidths ((c :: cs).take (c :: cs).length) < column := lt_columnIn_iff
      rw [List.take_length] at hlast
      rw [List.length_cons] at hle hlast ⊢
      omega

namespace Document

variable {d : Document} {line : Nat}

/-- A column of a line lands behind the characters left of it. -/
theorem landing_eq (hline : line < d.lineCount) (column : Nat) :
    d.landing (d.lineStart line) (d.lineEnd line) column =
      d.lineStart line + columnIn (d.row line) column := by
  cases column with
  | zero => rfl
  | succ target =>
      have hrow : d.slice (d.lineStart line) (d.lineEnd line) = d.row line :=
        rfl
      rw [landing, offsetOfColumn?, columnIn, hrow]
      cases cellAt? (d.row line) target with
      | none => exact (lineStart_add_row_length hline).symm
      | some k => rfl

/-- The display column of the right edge of a character, counted from one: the
width of its line up to and with the character. -/
def rightEdge (d : Document) (offset : Nat) : Nat :=
  displayWidths (d.slice (d.lineStart (d.lineOf offset)) (offset + 1))

theorem rightEdge_add {k : Nat} (hline : line < d.lineCount)
    (hk : k < (d.row line).length) :
    d.rightEdge (d.lineStart line + k) =
      displayWidths ((d.row line).take (k + 1)) := by
  have hrow := lineStart_add_row_length hline
  rw [rightEdge, lineOf_add hline (Nat.le_of_lt hk), row, take_slice (by omega),
    Nat.add_assoc]

end Document

end Lintmark
