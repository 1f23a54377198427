/-
The line index cuts a document into rows and the gaps between them, and nothing is
lost or counted twice.  Every offset has one position, on the line whose row or gap
it is in.
-/
import Lintmark.Proofs.Document.Cut

namespace Lintmark

/-- The order of positions: by line, and by column on the same line. -/
def Document.Position.AtOrBefore (p q : Document.Position) : Prop :=
  p.line < q.line ∨ p.line = q.line ∧ p.column ≤ q.column

namespace Document

variable {d : Document} {line a b : Nat}

theorem take_append_slice (d : Document) (hab : a ≤ b) :
    d.chars.take a ++ d.slice a b = d.chars.take b := by
  rw [slice, ← List.take_add, Nat.add_sub_cancel' hab]

theorem slice_eq_cons {c : Char} (hchar : d.charAt? a = some c) (hab : a < b) :
    d.slice a b = c :: d.slice (a + 1) b := by
  obtain ⟨hlt, hget⟩ := List.getElem?_eq_some_iff.mp hchar
  have hwidth : b - a = b - (a + 1) + 1 := by omega
  rw [slice, slice, List.drop_eq_getElem_cons hlt, hget, hwidth, List.take_succ_cons]

theorem slice_self (d : Document) (a : Nat) : d.slice a a = [] := by
  rw [slice, Nat.sub_self, List.take_zero]

/-- What stands between the end of a line and the start of the next one. -/
def gap (d : Document) (line : Nat) : List Char :=
  d.slice (d.lineEnd line) (d.lineStart (line + 1))

/-- The line feed of a line has a carriage return of the same line before it. -/
def HasCarriage (d : Document) (line : Nat) : Prop :=
  ∃ k, d.lineStart line ≤ k ∧ k + 2 = d.lineStart (line + 1) ∧ d.charAt? k = some '\r'

theorem gap_cases (hinner : line + 1 < d.lineCount) :
    d.HasCarriage line ∧ d.gap line = ['\r', '\n'] ∨
      ¬ d.HasCarriage line ∧ d.gap line = ['\n'] := by
  have hline := Nat.lt_of_succ_lt hinner
  cases lineEnding hline with
  | document hlast _ => omega
  | feed _ hnext hbare =>
      right
      constructor
      · rintro ⟨k, hk, hfeed, hreturn⟩
        have hbefore : d.lineEnd line - 1 = k := by omega
        apply hbare (by omega)
        rwa [hbefore]
      · obtain ⟨feed, hfeed, -, hchar⟩ := exists_feed hinner
        have hat : feed = d.lineEnd line := by omega
        rw [hat] at hchar
        rw [gap, hnext, slice_eq_cons hchar (Nat.lt_succ_self _), slice_self]
  | carriage _ hnext hreturn hfeed =>
      left
      refine ⟨⟨d.lineEnd line, lineStart_le_lineEnd hline, hnext.symm, hreturn⟩, ?_⟩
      rw [gap, hnext, slice_eq_cons hreturn (by omega), slice_eq_cons hfeed (by omega),
        slice_self]

theorem offsetOfLine_count_succ (cs : List Char) :
    offsetOfLine cs (cs.count '\n' + 1) = cs.length := by
  induction cs with
  | nil => rfl
  | cons c cs ih =>
      rw [offsetOfLine, List.length_cons, ← ih]
      by_cases hc : c = '\n'
      · rw [if_pos hc, hc, List.count_cons_self]
      · rw [if_neg hc, List.count_cons_of_ne hc]

/-- The line behind the last one starts at the end of the document. -/
theorem lineStart_lineCount (d : Document) : d.lineStart d.lineCount = d.charCount :=
  offsetOfLine_count_succ d.chars

theorem lineEnd_last (hlast : line + 1 = d.lineCount) : d.lineEnd line = d.charCount := by
  rw [lineEnd, if_pos (Nat.le_of_eq hlast.symm)]

theorem lineEnd_le_lineStart_succ (hline : line < d.lineCount) :
    d.lineEnd line ≤ d.lineStart (line + 1) := by
  rcases Nat.lt_or_eq_of_le (Nat.succ_le_of_lt hline) with hinner | hlast
  · exact Nat.le_of_lt (lineEnd_lt_lineStart hinner)
  · apply Nat.le_of_eq
    rw [lineEnd_last hlast, ← lineStart_lineCount, ← hlast]

/-- The rows of the lines up to some line, with the gaps behind them, are the text in
front of that line. -/
theorem flatMap_row_append_gap (hle : line ≤ d.lineCount) :
    (List.range line).flatMap (fun k => d.row k ++ d.gap k) =
      d.chars.take (d.lineStart line) := by
  induction line with
  | zero => simp
  | succ line ih =>
      have hline := Nat.lt_of_succ_le hle
      have hrow : d.chars.take (d.lineStart line) ++ d.row line =
          d.chars.take (d.lineEnd line) :=
        take_append_slice d (lineStart_le_lineEnd hline)
      have hgap : d.chars.take (d.lineEnd line) ++ d.gap line =
          d.chars.take (d.lineStart (line + 1)) :=
        take_append_slice d (lineEnd_le_lineStart_succ hline)
      rw [List.range_succ, List.flatMap_append, List.flatMap_singleton,
        ih (Nat.le_of_succ_le hle), ← List.append_assoc, hrow, hgap]

/-- The lines of a document are its pieces. -/
structure Partition (d : Document) : Prop where
  count : d.lineCount = d.chars.count '\n' + 1
  first : d.lineStart 0 = 0
  start_le : ∀ line < d.lineCount, d.lineStart line ≤ d.lineEnd line
  /-- A line ends before the later ones start. -/
  ordered : ∀ line later, line < later → later < d.lineCount →
    d.lineEnd line < d.lineStart later
  noFeed : ∀ line < d.lineCount, '\n' ∉ d.slice (d.lineStart line) (d.lineEnd line)
  text : ∀ line < d.lineCount, d.lineText? line =
    some (String.ofList (d.slice (d.lineStart line) (d.lineEnd line)))
  noText : ∀ line, d.lineCount ≤ line → d.lineText? line = none
  /-- Between two lines is a line feed, with a carriage return if there is one. -/
  gap : ∀ line, line + 1 < d.lineCount →
    d.HasCarriage line ∧
        d.slice (d.lineEnd line) (d.lineStart (line + 1)) = ['\r', '\n'] ∨
      ¬ d.HasCarriage line ∧
        d.slice (d.lineEnd line) (d.lineStart (line + 1)) = ['\n']
  last : d.lineEnd (d.lineCount - 1) = d.charCount
  /-- Rows and gaps together are the document. -/
  whole : (List.range d.lineCount).flatMap (fun line => d.row line ++ d.gap line) = d.chars

theorem partition (d : Document) : d.Partition where
  count := rfl
  first := d.lineStart_zero
  start_le := fun _ => lineStart_le_lineEnd
  ordered := fun _ _ => lineEnd_lt_lineStart_of_lt
  noFeed := fun _ => feed_notMem_row
  text := fun _ => lineText?_eq
  noText := fun line hline => by rw [lineText?, if_neg (Nat.not_lt.mpr hline)]
  gap := fun _ => gap_cases
  last := lineEnd_last (Nat.sub_add_cancel (Nat.succ_pos _))
  whole := by
    rw [flatMap_row_append_gap (Nat.le_refl _), lineStart_lineCount, charCount,
      List.take_length]

/-- The position of an offset in the document: its line, and how far behind the start
of that line it is. -/
structure IsPosition (d : Document) (offset : Nat) (p : Position) : Prop where
  line_lt : p.line < d.lineCount
  offset_eq : d.lineStart p.line + p.column = offset
  before_next : p.line + 1 < d.lineCount → offset < d.lineStart (p.line + 1)

theorem IsPosition.line_eq {offset : Nat} {p : Position} (h : d.IsPosition offset p) :
    p.line = d.lineOf offset := by
  have hstart : d.lineStart p.line ≤ offset := by
    rw [← h.offset_eq]
    exact Nat.le_add_right _ _
  have hge := (lineStart_le_iff h.line_lt).mp hstart
  by_cases hinner : p.line + 1 < d.lineCount
  · have hlt := (lt_lineStart_iff hinner).mp (h.before_next hinner)
    omega
  · have hlt := d.lineOf_lt_lineCount offset
    omega

theorem isPosition_positionOf (d : Document) (offset : Nat) :
    d.IsPosition (min offset d.charCount) (d.positionOf offset) where
  line_lt := d.lineOf_lt_lineCount _
  offset_eq := Nat.add_sub_cancel' (d.lineStart_lineOf_le _)
  before_next := fun hinner => (lt_lineStart_iff hinner).mpr (Nat.lt_succ_self _)

theorem IsPosition.eq {offset : Nat} {p q : Position} (hp : d.IsPosition offset p)
    (hq : d.IsPosition offset q) : p = q := by
  have hline : p.line = q.line := hp.line_eq.trans hq.line_eq.symm
  have hoffset := hp.offset_eq.trans hq.offset_eq.symm
  rw [hline] at hoffset
  have hcolumn : p.column = q.column := Nat.add_left_cancel hoffset
  calc
    p = ⟨p.line, p.column⟩ := rfl
    _ = ⟨q.line, q.column⟩ := by rw [hline, hcolumn]
    _ = q := rfl

theorem IsPosition.atOrBefore {p q : Position} (hp : d.IsPosition a p)
    (hq : d.IsPosition b q) (hab : a ≤ b) : p.AtOrBefore q := by
  have hmono := d.lineOf_mono hab
  rw [← hp.line_eq, ← hq.line_eq] at hmono
  rcases Nat.lt_or_eq_of_le hmono with hless | hsame
  · exact Or.inl hless
  · refine Or.inr ⟨hsame, ?_⟩
    apply Nat.le_of_add_le_add_left (a := d.lineStart q.line)
    rw [hq.offset_eq, ← hsame, hp.offset_eq]
    exact hab

/-- The lines are the pieces of the document, every offset has one position, and the
positions keep the order of the offsets.  An offset past the end counts as the end. -/
theorem lines_partition (d : Document) :
    d.Partition ∧
      (∀ offset p, d.IsPosition (min offset d.charCount) p ↔ p = d.positionOf offset) ∧
      ∀ a b, a ≤ b → (d.positionOf a).AtOrBefore (d.positionOf b) := by
  refine ⟨d.partition, ?_, ?_⟩
  · intro offset p
    constructor
    · intro hp
      exact hp.eq (d.isPosition_positionOf offset)
    · rintro rfl
      exact d.isPosition_positionOf offset
  · intro a b hab
    apply (d.isPosition_positionOf a).atOrBefore (d.isPosition_positionOf b)
    omega

end Document

end Lintmark
