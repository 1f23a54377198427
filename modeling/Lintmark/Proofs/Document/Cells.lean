/-
Cells: the display columns that a character covers.  The cells of a row stand side by
side, so that a column is in the cell of one character or behind all of them, and the
search for it inverts the widths of the beginnings of the row.
-/
import Lintmark.Proofs.Document.Columns

namespace Lintmark

theorem displayWidth_tab : displayWidth '\t' = 8 := rfl

theorem displayWidth_of_ne_tab {c : Char} (h : c ≠ '\t') : displayWidth c = 1 :=
  if_neg h

theorem displayWidths_append (front rest : List Char) :
    displayWidths (front ++ rest) = displayWidths front + displayWidths rest := by
  induction front with
  | nil => rw [List.nil_append, displayWidths_nil, Nat.zero_add]
  | cons c front ih =>
      rw [List.cons_append, displayWidths_cons, displayWidths_cons, ih, Nat.add_assoc]

/-- The character that the search finds is the one whose cell holds the column: the
characters before it end at or before the column, and with it they end behind. -/
theorem cellAt?_eq_some_iff {cs : List Char} {target k : Nat} :
    cellAt? cs target = some k ↔
      k < cs.length ∧ displayWidths (cs.take k) ≤ target ∧
        target < displayWidths (cs.take (k + 1)) := by
  induction cs generalizing target k with
  | nil => simp [cellAt?]
  | cons c cs ih =>
      -- The target is in the first cell, or the rest is searched for what is left of it.
      by_cases hcell : target < displayWidth c
      · rw [cellAt?, if_pos hcell]
        cases k with
        | zero => simp [hcell]
        | succ k =>
            simp only [List.take_succ_cons, displayWidths_cons, Option.some.injEq]
            omega
      · rw [cellAt?, if_neg hcell]
        cases k with
        | zero => simpa using hcell
        | succ k =>
            simp only [Option.map_eq_some_iff, Nat.add_right_cancel_iff, exists_eq_right,
              ih, List.length_cons, List.take_succ_cons, displayWidths_cons]
            omega

/-- The search finds nothing when the column is behind the whole row. -/
theorem cellAt?_eq_none_iff {cs : List Char} {target : Nat} :
    cellAt? cs target = none ↔ displayWidths cs ≤ target := by
  have hreach : columnIn cs (target + 1) = cs.length ↔ displayWidths cs ≤ target := by
    rw [columnIn_eq_length_iff, Nat.max_eq_left (Nat.succ_pos target), Nat.lt_succ_iff]
  rw [← hreach, columnIn]
  cases hcell : cellAt? cs target with
  | none => simp
  | some k =>
      have hk : k < cs.length := (cellAt?_eq_some_iff.mp hcell).1
      simp [Nat.ne_of_lt hk]

/-- A column before one that is found is found, too, and not further on. -/
theorem cellAt?_of_le {cs : List Char} {near far k : Nat} (h : near ≤ far)
    (hfar : cellAt? cs far = some k) : ∃ j ≤ k, cellAt? cs near = some j := by
  have hk : k < cs.length := (cellAt?_eq_some_iff.mp hfar).1
  have hle : (cellAt? cs near).getD cs.length ≤ (cellAt? cs far).getD cs.length :=
    columnIn_mono cs (Nat.succ_le_succ h)
  rw [hfar, Option.getD_some] at hle
  cases hnear : cellAt? cs near with
  | none =>
      rw [hnear, Option.getD_none] at hle
      exact absurd hk (Nat.not_lt.mpr hle)
  | some j =>
      rw [hnear, Option.getD_some] at hle
      exact ⟨j, hle, rfl⟩

namespace Document

variable {d : Document} {start stop offset target : Nat}

/-- Display width of the characters in `start..stop`. -/
def width (d : Document) (start stop : Nat) : Nat :=
  displayWidths (d.slice start stop)

/-- A range without characters takes up no columns. -/
theorem width_of_le (h : stop ≤ start) : d.width start stop = 0 := by
  rw [width, slice, Nat.sub_eq_zero_of_le h, List.take_zero, displayWidths_nil]

theorem width_succ {c : Char} (hstart : start ≤ offset)
    (hchar : d.charAt? offset = some c) :
    d.width start (offset + 1) = d.width start offset + displayWidth c := by
  have hslice : d.slice start (offset + 1) = d.slice start offset ++ [c] := by
    have hget : (d.chars.drop start)[offset - start]? = some c := by
      rw [List.getElem?_drop, Nat.add_sub_cancel' hstart]
      exact hchar
    rw [slice, slice, Nat.succ_sub hstart, List.take_add_one, hget, Option.toList_some]
  rw [width, width, hslice, displayWidths_append, displayWidths_cons, displayWidths_nil,
    Nat.add_zero]

/-- A column leads to the offset whose cell in the range it is in. -/
theorem offsetOfColumn?_eq_some_iff :
    d.offsetOfColumn? start stop target = some offset ↔
      start ≤ offset ∧ offset < min stop d.charCount ∧
        d.width start offset ≤ target ∧ target < d.width start (offset + 1) := by
  rw [offsetOfColumn?, Option.map_eq_some_iff]
  constructor
  · rintro ⟨k, hk, rfl⟩
    obtain ⟨hlt, hbefore, hwith⟩ := cellAt?_eq_some_iff.mp hk
    rw [length_slice] at hlt
    rw [take_slice (by omega)] at hbefore hwith
    exact ⟨Nat.le_add_right _ _, by omega, hbefore, hwith⟩
  · rintro ⟨hstart, hstop, hbefore, hwith⟩
    obtain ⟨k, rfl⟩ := Nat.exists_eq_add_of_le hstart
    refine ⟨k, cellAt?_eq_some_iff.mpr ?_, rfl⟩
    rw [length_slice, take_slice (by omega), take_slice (by omega)]
    exact ⟨by omega, hbefore, hwith⟩

/-- A column behind the characters of the range, as far as the document has them, leads
nowhere. -/
theorem offsetOfColumn?_eq_none_iff :
    d.offsetOfColumn? start stop target = none ↔
      d.width start (min stop d.charCount) ≤ target := by
  rw [offsetOfColumn?, Option.map_eq_none_iff, cellAt?_eq_none_iff, width, slice_min]

/-- The columns that lead to a character of the range are those of its cell. -/
theorem offsetOfColumn?_eq_some_iff_cell {c : Char} (hstart : start ≤ offset)
    (hstop : offset < min stop d.charCount) (hchar : d.charAt? offset = some c) :
    d.offsetOfColumn? start stop target = some offset ↔
      d.width start offset ≤ target ∧ target < d.width start offset + displayWidth c := by
  rw [offsetOfColumn?_eq_some_iff, width_succ hstart hchar, and_iff_right hstart,
    and_iff_right hstop]

theorem offsetOfColumn?_of_le {near far : Nat} (h : near ≤ far)
    (hfar : d.offsetOfColumn? start stop far = some offset) :
    ∃ before ≤ offset, d.offsetOfColumn? start stop near = some before := by
  rw [offsetOfColumn?, Option.map_eq_some_iff] at hfar
  obtain ⟨k, hk, rfl⟩ := hfar
  obtain ⟨j, hjk, hj⟩ := cellAt?_of_le h hk
  refine ⟨start + j, Nat.add_le_add_left hjk start, ?_⟩
  rw [offsetOfColumn?, hj, Option.map_some]

/-- The search for a display column inverts the widths of the beginnings of a range.  A
column leads to the one character whose cell it is in, and nowhere when it is behind the
characters of the range, as far as the document has them; a range without characters is
no column wide.  So the eight columns of a tab, and the one of any other character, lead
to that character and no other column does, and greater columns never lead back. -/
theorem offsetOfColumn?_inverts_width (d : Document) (start stop : Nat) :
    (∀ target offset, d.offsetOfColumn? start stop target = some offset ↔
        start ≤ offset ∧ offset < min stop d.charCount ∧
          d.width start offset ≤ target ∧ target < d.width start (offset + 1)) ∧
      (∀ target, d.offsetOfColumn? start stop target = none ↔
        d.width start (min stop d.charCount) ≤ target) ∧
      (∀ offset, offset ≤ start → d.width start offset = 0) ∧
      (∀ target offset, start ≤ offset → offset < min stop d.charCount →
        (d.offsetOfColumn? start stop target = some offset ↔
          if d.charAt? offset = some '\t' then
            d.width start offset ≤ target ∧ target < d.width start offset + 8
          else target = d.width start offset)) ∧
      ∀ near far offset, near ≤ far → d.offsetOfColumn? start stop far = some offset →
        ∃ before ≤ offset, d.offsetOfColumn? start stop near = some before := by
  refine ⟨fun _ _ => offsetOfColumn?_eq_some_iff, fun _ => offsetOfColumn?_eq_none_iff,
    fun _ => width_of_le, ?_, fun _ _ _ => offsetOfColumn?_of_le⟩
  intro target offset hstart hstop
  have hlt : offset < d.chars.length := Nat.lt_of_lt_of_le hstop (Nat.min_le_right _ _)
  have hchar : d.charAt? offset = some d.chars[offset] := List.getElem?_eq_getElem hlt
  split
  case isTrue htab =>
    rw [offsetOfColumn?_eq_some_iff_cell hstart hstop htab, displayWidth_tab]
  case isFalse hother =>
    have hne : d.chars[offset] ≠ '\t' := by
      intro htab
      exact hother (hchar.trans (congrArg some htab))
    rw [offsetOfColumn?_eq_some_iff_cell hstart hstop hchar, displayWidth_of_ne_tab hne]
    omega

/-- In a range that runs past the document, its tab has the columns one to eight. -/
theorem offsetOfColumn?_inverts_width_of_tab :
    (1 ≤ 2 ∧ 2 < min 9 (ofString "\nx\ty").charCount) ∧
      (∀ target, (ofString "\nx\ty").offsetOfColumn? 1 9 target = some 2 ↔
        1 ≤ target ∧ target < 1 + 8) ∧
      (ofString "\nx\ty").offsetOfColumn? 1 9 10 = none ∧
      (4 ≤ 9 ∧ (ofString "\nx\ty").offsetOfColumn? 1 9 9 = some 3) ∧
      ∃ before ≤ 3, (ofString "\nx\ty").offsetOfColumn? 1 9 4 = some before := by
  obtain ⟨-, hnone, -, hcell, hmono⟩ :=
    offsetOfColumn?_inverts_width (ofString "\nx\ty") 1 9
  refine ⟨by decide, ?_, (hnone 10).mpr (by decide), by decide,
    hmono 4 9 3 (by decide) (by decide)⟩
  intro target
  exact hcell target 2 (by decide) (by decide)

end Document

end Lintmark
