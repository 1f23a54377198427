/-
Whole lines against exact columns.  Both keep the same issues and say the same
about them.  Whole lines hold everything that exact columns hold, but for the
indentation in front of them.
-/
import Mathlib.Data.List.Forall2
import Lintmark.Proofs.Annotation.Placement

namespace Lintmark

variable {row : List Char} {column : Nat} {c : Char}

theorem indentation_cons_of_isIndent (h : Document.isIndent c) :
    indentation (c :: row) = indentation row + 1 := by
  rw [indentation, List.takeWhile_cons_of_pos h, List.length_cons, indentation]

theorem indentation_cons_of_not_isIndent (h : ¬ Document.isIndent c) :
    indentation (c :: row) = 0 := by
  rw [indentation, List.takeWhile_cons_of_neg h, List.length_nil]

/-- The indentation of a row holds nothing but spaces and tabs. -/
theorem exists_isIndent_of_lt_indentation (h : column < indentation row) :
    ∃ c, row[column]? = some c ∧ Document.isIndent c := by
  induction row generalizing column with
  | nil => exact absurd h (Nat.not_lt_zero column)
  | cons head tail ih =>
      by_cases hhead : Document.isIndent head
      · rw [indentation_cons_of_isIndent hhead] at h
        cases column with
        | zero => exact ⟨head, rfl, hhead⟩
        | succ column => exact ih (Nat.lt_of_succ_lt_succ h)
      · rw [indentation_cons_of_not_isIndent hhead] at h
        exact absurd h (Nat.not_lt_zero column)

/-- It ends at a character that is neither, or with the row. -/
theorem not_isIndent_of_getElem?_indentation (h : row[indentation row]? = some c) :
    ¬ Document.isIndent c := by
  induction row with
  | nil => cases h
  | cons head tail ih =>
      by_cases hhead : Document.isIndent head
      · rw [indentation_cons_of_isIndent hhead, List.getElem?_cons_succ] at h
        exact ih h
      · rw [indentation_cons_of_not_isIndent hhead, List.getElem?_cons_zero,
          Option.some_inj] at h
        rwa [← h]

namespace Document

variable {d : Document} {i : Issue} {line offset : Nat}

def IsIndentAt (d : Document) (offset : Nat) : Prop :=
  ∃ c, d.charAt? offset = some c ∧ isIndent c

theorem isIndentAt_of_lt_indentation (h : column < indentation (d.row line)) :
    d.IsIndentAt (d.lineStart line + column) := by
  have hcolumn := Nat.lt_of_lt_of_le h (indentation_le_length _)
  obtain ⟨c, hc, hindent⟩ := exists_isIndent_of_lt_indentation h
  exact ⟨c, (charAt?_add hcolumn).trans hc, hindent⟩

/-- A line ends at its terminator or with the document, and neither is
indentation. -/
theorem not_isIndentAt_lineEnd (hline : line < d.lineCount) :
    ¬ d.IsIndentAt (d.lineEnd line) := by
  rintro ⟨c, hc, hindent⟩
  cases lineEnding hline with
  | document _ hstop =>
      have hlt := charAt?_lt_charCount hc
      exact absurd hlt (Nat.not_lt.mpr (Nat.le_of_eq hstop.symm))
  | feed hinner hnext _ =>
      obtain ⟨feed, hfeed, -, hchar⟩ := exists_feed hinner
      have hsame : feed = d.lineEnd line :=
        Nat.succ.inj (hfeed.symm.trans hnext)
      rw [← hsame, hchar, Option.some_inj] at hc
      rw [← hc] at hindent
      exact absurd hindent (by decide)
  | carriage _ _ hreturn _ =>
      rw [hreturn, Option.some_inj] at hc
      rw [← hc] at hindent
      exact absurd hindent (by decide)

theorem not_isIndentAt_indentation (hline : line < d.lineCount) :
    ¬ d.IsIndentAt (d.lineStart line + indentation (d.row line)) := by
  rcases Nat.lt_or_eq_of_le (indentation_le_length (d.row line)) with hlt | hall
  · rintro ⟨c, hc, hindent⟩
    rw [charAt?_add hlt] at hc
    exact not_isIndent_of_getElem?_indentation hc hindent
  · rw [hall, lineStart_add_row_length hline]
    exact not_isIndentAt_lineEnd hline

/-- What an issue gives with whole lines, against what it gives with exact
columns. -/
structure Refines (d : Document) (i : Issue) (exact whole : Annotation) :
    Prop where
  severity : whole.severity = exact.severity
  message : whole.message = exact.message
  code : whole.code = exact.code
  source : whole.source = exact.source
  atLineEnd : whole.atLineEnd = exact.atLineEnd
  /-- An offset of the exact range is in the whole one, or lies before it and is
  indentation. -/
  covers : ∀ offset, exact.start ≤ offset → offset < exact.stop →
    (whole.start ≤ offset ∧ offset < whole.stop) ∨
      (offset < whole.start ∧ d.IsIndentAt offset)
  /-- The lines of the issue have nothing but indentation in front. -/
  front : ∀ offset, d.lineStart (i.line - 1) ≤ offset → offset < whole.start →
    d.IsIndentAt offset
  stop : whole.stop = d.lineEnd (i.effectiveEndLine - 1)
  /-- The whole range starts behind the indentation, unless there is nothing
  else. -/
  start : ¬ d.IsIndentAt whole.start ∨
    ∀ offset, d.lineStart (i.line - 1) ≤ offset →
      offset < d.lineEnd (i.effectiveEndLine - 1) → d.IsIndentAt offset

theorem isIndentAt_front (hstart : d.lineStart i.firstLine ≤ offset)
    (hoffset : offset < d.offsetAt (d.highlightStart i true)) :
    d.IsIndentAt offset := by
  obtain ⟨column, rfl⟩ := Nat.exists_eq_add_of_le hstart
  apply isIndentAt_of_lt_indentation
  have hcolumn : column < d.indentColumn i := Nat.lt_of_add_lt_add_left hoffset
  apply Nat.lt_of_lt_of_le hcolumn
  rw [indentColumn]
  split
  · exact Nat.zero_le _
  · exact Nat.le_refl _

/-- The highlight of whole lines starts at a character that is no indentation,
unless the issue is on one line that holds nothing else. -/
theorem not_isIndentAt_or_blank (h : i.Fits d) :
    ¬ d.IsIndentAt (d.offsetAt (d.highlightStart i true)) ∨
      ∀ offset, d.lineStart i.firstLine ≤ offset →
        offset < d.lineEnd i.lastLine → d.IsIndentAt offset := by
  by_cases hblank : i.firstLine = i.lastLine ∧
      indentation (d.row i.firstLine) = (d.row i.firstLine).length
  · right
    intro offset hstart hoffset
    obtain ⟨column, rfl⟩ := Nat.exists_eq_add_of_le hstart
    rw [← hblank.1, ← lineStart_add_row_length h.firstLine_lt, ← hblank.2] at hoffset
    exact isIndentAt_of_lt_indentation (Nat.lt_of_add_lt_add_left hoffset)
  · left
    have hcolumn : d.indentColumn i = indentation (d.row i.firstLine) :=
      if_neg hblank
    change ¬ d.IsIndentAt (d.lineStart i.firstLine + d.indentColumn i)
    rw [hcolumn]
    exact not_isIndentAt_indentation h.firstLine_lt

/-- The exact range keeps to the lines of the issue, which the whole range leaves only
in front. -/
theorem offset_in_lines (h : i.Fits d)
    (hstart : d.offsetAt (d.highlightStart i false) ≤ offset)
    (hstop : offset < d.offsetAt (d.highlightStop i false)) :
    d.lineStart i.firstLine ≤ offset ∧
      offset < d.offsetAt (d.highlightStop i true) := by
  have hlast := offsetAt_le_lineEnd (reaches_highlightStop h false)
  rw [offsetAt_highlightStop_wholeLine h]
  exact ⟨Nat.le_trans (Nat.le_add_right _ _) hstart,
    Nat.lt_of_lt_of_le hstop hlast⟩

variable {demote : Bool} {exact whole : Annotation}

theorem refines_of_annotate?
    (hexact : d.annotate? { wholeLine := false, demote } i = some exact)
    (hwhole : d.annotate? { wholeLine := true, demote } i = some whole) :
    d.Refines i exact whole := by
  have h := fits_of_annotate? hexact
  rw [annotate?_of_fits h, Option.some_inj] at hexact hwhole
  subst hexact hwhole
  refine ⟨rfl, rfl, rfl, rfl, rfl, ?_, ?_, ?_, ?_⟩
  · intro offset hstart hstop
    obtain ⟨hline, hbefore⟩ := offset_in_lines h hstart hstop
    rcases Nat.lt_or_ge offset (d.offsetAt (d.highlightStart i true)) with
      hfront | hbehind
    · exact Or.inr ⟨hfront, isIndentAt_front hline hfront⟩
    · exact Or.inl ⟨hbehind, hbefore⟩
  · intro offset hstart hoffset
    exact isIndentAt_front hstart hoffset
  · exact offsetAt_highlightStop_wholeLine h
  · exact not_isIndentAt_or_blank h

/-- Whole lines change nothing but ranges.  They keep the same issues in their order, and
the range of each issue goes from the first character that is no indentation to the end of
its last line, over all of the exact range but indentation. -/
theorem annotations_wholeLine_refine (d : Document) (demote : Bool)
    (issues : List Issue) :
    let kept := issues.filter fun i =>
      (d.annotate? { wholeLine := false, demote } i).isSome
    issues.filter (fun i =>
        (d.annotate? { wholeLine := true, demote } i).isSome) = kept ∧
      List.Forall₂
        (fun i exact => d.annotate? { wholeLine := false, demote } i = some exact)
        kept (d.annotations { wholeLine := false, demote } issues) ∧
      List.Forall₂
        (fun i whole => d.annotate? { wholeLine := true, demote } i = some whole)
        kept (d.annotations { wholeLine := true, demote } issues) ∧
      List.Forall₂
        (fun exact whole => ∃ i ∈ issues,
          d.annotate? { wholeLine := false, demote } i = some exact ∧
            d.annotate? { wholeLine := true, demote } i = some whole ∧
            d.Refines i exact whole)
        (d.annotations { wholeLine := false, demote } issues)
        (d.annotations { wholeLine := true, demote } issues) := by
  have hsame (i : Issue) : (d.annotate? { wholeLine := true, demote } i).isSome ↔
      (d.annotate? { wholeLine := false, demote } i).isSome := by
    rw [isSome_annotate?_iff, isSome_annotate?_iff]
  intro kept
  have hkept : issues.filter
      (fun i => (d.annotate? { wholeLine := true, demote } i).isSome) = kept := by
    apply List.filter_congr
    intro i _
    exact Bool.eq_iff_iff.mpr (hsame i)
  refine ⟨hkept, forall₂_annotations d _ issues, ?_, ?_⟩
  · rw [← hkept]
    exact forall₂_annotations d _ issues
  · refine List.rel_filterMap (R := fun i i' => i = i' ∧ i ∈ issues) ?_
      (List.forall₂_same.mpr fun i hi => ⟨rfl, hi⟩)
    rintro i _ ⟨rfl, hi⟩
    cases hexact : d.annotate? { wholeLine := false, demote } i with
    | none =>
        have hnone : d.annotate? { wholeLine := true, demote } i = none := by
          rw [← Option.not_isSome_iff_eq_none, hsame, hexact]
          exact Bool.false_ne_true
        rw [hnone]
        exact .none
    | some exact =>
        have hsome : (d.annotate? { wholeLine := true, demote } i).isSome := by
          rw [hsame, hexact]
          rfl
        obtain ⟨whole, hwhole⟩ := Option.isSome_iff_exists.mp hsome
        rw [hwhole]
        exact .some ⟨i, hi, hexact, hwhole, refines_of_annotate? hexact hwhole⟩

/-- A finding on an indented line.  Another one, on a line that is not there, has no
annotation in either way. -/
theorem annotations_wholeLine_refine_of_indented_line :
    let d := ofString "\techo $x"
    let quote : Issue := { line := 1, column := 14, endColumn := 16 }
    let issues := [quote, { line := 2 }]
    (d.annotations {} issues).map (fun a => (a.start, a.stop)) = [(6, 8)] ∧
      (d.annotations { wholeLine := true } issues).map (fun a => (a.start, a.stop)) =
        [(1, 8)] ∧
      List.Forall₂ (fun i whole => d.annotate? { wholeLine := true } i = some whole) [quote]
        (d.annotations { wholeLine := true } issues) := by
  intro d quote issues
  obtain ⟨-, -, hpairs, -⟩ := annotations_wholeLine_refine d false issues
  have hkept : issues.filter (fun i => (d.annotate? {} i).isSome) = [quote] := by decide
  rw [hkept] at hpairs
  exact ⟨by decide, by decide, hpairs⟩

end Document

end Lintmark
