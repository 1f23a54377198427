/-
A document cut around one line: the text in front of the line, its row, and the
text from its terminator on.  Every line has one cut, and any cut tells where
the line starts and ends, so that two documents are compared by their cuts.
-/
import Lintmark.Proofs.Document.Rows

namespace Lintmark

namespace Document

variable {d : Document} {line : Nat} {before row after : List Char}

/-- A text of whole lines: nothing, or a text that ends in a line feed. -/
def WholeLines (cs : List Char) : Prop :=
  cs = [] ∨ ∃ init, cs = init ++ ['\n']

/-- What may follow a row: nothing, a line feed when the row does not end in a
carriage return, or a carriage return with its line feed. -/
inductive Follows (row : List Char) : List Char → Prop where
  | nothing : Follows row []
  | feed (rest : List Char) (bare : row.getLast? ≠ some '\r') :
      Follows row ('\n' :: rest)
  | carriage (rest : List Char) : Follows row ('\r' :: '\n' :: rest)

/-- The text `before ++ row ++ after` of a document, cut around a line. -/
structure Cut (d : Document) (line : Nat) (before row after : List Char) :
    Prop where
  chars_eq : d.chars = before ++ (row ++ after)
  feeds_before : before.count '\n' = line
  wholeLines : WholeLines before
  noFeed : '\n' ∉ row
  follows : Follows row after

/-- A text of whole lines in front of the rest of a document ends where the
line with the number of its line feeds starts. -/
theorem lineStart_count_of_wholeLines {front rest : List Char}
    (hchars : d.chars = front ++ rest) (hfront : WholeLines front) :
    d.lineStart (front.count '\n') = front.length := by
  have hline : front.count '\n' < d.lineCount := by
    rw [lineCount, hchars, List.count_append]
    omega
  have hcount : d.lineOf front.length = front.count '\n' := by
    rw [lineOf, hchars, List.take_left]
  have hle : d.lineStart (front.count '\n') ≤ front.length :=
    (lineStart_le_iff hline).2 (Nat.le_of_eq hcount.symm)
  rcases hfront with rfl | ⟨init, rfl⟩
  · simp
  · have hlt : init.length < d.lineStart ((init ++ ['\n']).count '\n') := by
      rw [lt_lineStart_iff hline, lineOf, hchars, List.append_assoc,
        List.take_left]
      simp
    simp only [List.length_append, List.length_singleton] at hle ⊢
    omega

namespace Cut

theorem lineStart_eq (h : d.Cut line before row after) :
    d.lineStart line = before.length := by
  rw [← h.feeds_before]
  exact lineStart_count_of_wholeLines h.chars_eq h.wholeLines

theorem lineCount_eq (h : d.Cut line before row after) :
    d.lineCount = line + after.count '\n' + 1 := by
  have hrow : row.count '\n' = 0 := List.count_eq_zero.2 h.noFeed
  simp [lineCount, h.chars_eq, hrow, h.feeds_before]

theorem line_lt (h : d.Cut line before row after) : line < d.lineCount := by
  rw [h.lineCount_eq]
  omega

/-- The next line starts behind the terminator. -/
theorem lineStart_succ (terminator : List Char) {rest : List Char}
    (h : d.Cut line before row (terminator ++ rest))
    (hterminator : WholeLines terminator) (hfeeds : terminator.count '\n' = 1) :
    d.lineStart (line + 1) =
      before.length + row.length + terminator.length := by
  have hrow : row.count '\n' = 0 := List.count_eq_zero.2 h.noFeed
  have hfront : WholeLines (before ++ row ++ terminator) := by
    rcases hterminator with rfl | ⟨init, rfl⟩
    · simp at hfeeds
    · exact Or.inr ⟨before ++ row ++ init, by simp⟩
  have hchars : d.chars = before ++ row ++ terminator ++ rest := by
    simp [h.chars_eq]
  have hstart := lineStart_count_of_wholeLines hchars hfront
  simpa [hrow, h.feeds_before, hfeeds, Nat.add_assoc] using hstart

theorem charAt?_row (h : d.Cut line before row after) {k : Nat}
    (hk : k < row.length) :
    d.charAt? (before.length + k) = row[k]? := by
  rw [charAt?, h.chars_eq, List.getElem?_append_right (Nat.le_add_right _ _),
    Nat.add_sub_cancel_left, List.getElem?_append_left hk]

/-- The line ends where its row does. -/
theorem lineEnding (h : d.Cut line before row after) :
    d.LineEnding line (before.length + row.length) := by
  have hstart := h.lineStart_eq
  have hcount := h.lineCount_eq
  cases h.follows with
  | nothing =>
      exact .document (by simpa using hcount.symm)
        (by simp [charCount, h.chars_eq])
  | feed rest hbare =>
      have hnext := lineStart_succ ['\n'] h (Or.inr ⟨[], rfl⟩) rfl
      refine .feed ?_ hnext ?_
      · simp only [List.count_cons_self] at hcount
        omega
      · intro hlt hreturn
        obtain ⟨k, hk⟩ : ∃ k, row.length = k + 1 := ⟨row.length - 1, by omega⟩
        rw [hk, Nat.add_succ_sub_one, h.charAt?_row (by omega)] at hreturn
        rw [List.getLast?_eq_getElem?, hk, Nat.add_sub_cancel] at hbare
        exact hbare hreturn
  | carriage rest =>
      have hnext := lineStart_succ ['\r', '\n'] h (Or.inr ⟨['\r'], rfl⟩) rfl
      have hbehind (k : Nat) :
          d.charAt? (before.length + row.length + k) =
            ('\r' :: '\n' :: rest)[k]? := by
        rw [charAt?, h.chars_eq, ← List.append_assoc, ← List.length_append,
          List.getElem?_append_right (Nat.le_add_right _ _),
          Nat.add_sub_cancel_left]
      have hfeeds : ('\r' :: '\n' :: rest).count '\n' = rest.count '\n' + 1 := by
        simp
      exact .carriage (by omega) hnext (hbehind 0) (hbehind 1)

theorem lineEnd_eq (h : d.Cut line before row after) :
    d.lineEnd line = before.length + row.length := by
  have hstart := h.lineStart_eq
  exact (Document.lineEnding h.line_lt).unique h.lineEnding
    (lineStart_le_lineEnd h.line_lt) (by omega)

theorem row_eq (h : d.Cut line before row after) : d.row line = row := by
  rw [Document.row, slice, h.lineStart_eq, h.lineEnd_eq, h.chars_eq,
    List.drop_left, Nat.add_sub_cancel_left, List.take_left]

end Cut

/-- What stands behind the end of a line follows its row. -/
theorem follows_drop_lineEnd (hline : line < d.lineCount) :
    Follows (d.row line) (d.chars.drop (d.lineEnd line)) := by
  have hrow := lineStart_add_row_length hline
  cases lineEnding hline with
  | document _ hstop =>
      rw [hstop, charCount, List.drop_length]
      exact .nothing
  | feed hinner hnext hbare =>
      have hfeed : d.charAt? (d.lineEnd line) = some '\n' := by
        obtain ⟨feed, hstart, -, hchar⟩ := exists_feed hinner
        have hat : d.lineEnd line = feed := by omega
        rw [hat]
        exact hchar
      obtain ⟨hlt, hchar⟩ := List.getElem?_eq_some_iff.1 hfeed
      rw [List.drop_eq_getElem_cons hlt, hchar]
      refine .feed _ ?_
      intro hlast
      rw [List.getLast?_eq_getElem?] at hlast
      obtain ⟨hpos, -⟩ := List.getElem?_eq_some_iff.1 hlast
      refine hbare (by omega) ?_
      rw [← hlast, ← charAt?_add hpos]
      congr 1
      omega
  | carriage _ _ hreturn hfeed =>
      obtain ⟨hlt, hchar⟩ := List.getElem?_eq_some_iff.1 hreturn
      obtain ⟨hlt', hchar'⟩ := List.getElem?_eq_some_iff.1 hfeed
      rw [List.drop_eq_getElem_cons hlt, hchar, List.drop_eq_getElem_cons hlt',
        hchar']
      exact .carriage _

theorem feed_notMem_row (hline : line < d.lineCount) : '\n' ∉ d.row line := by
  intro hmem
  obtain ⟨k, hk, hchar⟩ := List.getElem_of_mem hmem
  have hfeed : d.charAt? (d.lineStart line + k) = some '\n' := by
    rw [charAt?_add hk, List.getElem?_eq_getElem hk, hchar]
  rw [charAt?_eq_feed_iff, Nat.add_assoc, lineOf_add hline hk,
    lineOf_add hline (Nat.le_of_lt hk)] at hfeed
  omega

theorem wholeLines_take_lineStart (hline : line < d.lineCount) :
    WholeLines (d.chars.take (d.lineStart line)) := by
  cases line with
  | zero => exact Or.inl (by simp)
  | succ previous =>
      obtain ⟨feed, hstart, -, hchar⟩ := exists_feed hline
      refine Or.inr ⟨d.chars.take feed, ?_⟩
      rw [charAt?] at hchar
      rw [hstart, List.take_add_one, hchar]
      rfl

/-- Every line has a cut. -/
theorem cut (hline : line < d.lineCount) :
    d.Cut line (d.chars.take (d.lineStart line)) (d.row line)
      (d.chars.drop (d.lineEnd line)) where
  chars_eq := by
    have hle := lineStart_le_lineEnd hline
    have hdrop : d.chars.drop (d.lineEnd line) =
        (d.chars.drop (d.lineStart line)).drop
          (d.lineEnd line - d.lineStart line) := by
      rw [List.drop_drop, Nat.add_sub_cancel' hle]
    rw [hdrop, row, slice, List.take_append_drop, List.take_append_drop]
  feeds_before := lineOf_lineStart hline
  wholeLines := wholeLines_take_lineStart hline
  noFeed := feed_notMem_row hline
  follows := follows_drop_lineEnd hline

end Document

end Lintmark
