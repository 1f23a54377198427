/-
Annotations are local.  Whole lines in front of a document move the range of an
annotation and change nothing else, and text behind the lines of an issue does
not matter: a line that stays a line keeps its row.
-/
import Lintmark.Proofs.Annotation.Placement

namespace Lintmark

/-- The issue so many lines further down.  A last line that was not given is
not given there either. -/
def Issue.down (i : Issue) (lines : Nat) : Issue :=
  { i with
    line := i.line + lines
    endLine := if i.endLine = 0 then 0 else i.endLine + lines }

/-- The annotation with its range so many characters further on. -/
def Annotation.further (a : Annotation) (chars : Nat) : Annotation :=
  { a with start := a.start + chars, stop := a.stop + chars }

def Document.behind (d : Document) (front : List Char) : Document :=
  ⟨front ++ d.chars⟩

def Document.followedBy (d : Document) (rest : List Char) : Document :=
  ⟨d.chars ++ rest⟩

namespace Issue

variable {i : Issue}

@[simp]
theorem down_zero (i : Issue) : i.down 0 = i := by
  cases i
  simp only [down, Nat.add_zero, ite_eq_right_iff, mk.injEq, true_and, and_true]
  exact fun h => h.symm

theorem effectiveEndLine_down (i : Issue) (lines : Nat) :
    (i.down lines).effectiveEndLine = i.effectiveEndLine + lines := by
  by_cases hunset : i.endLine = 0
  · simp [effectiveEndLine, down, hunset]
  · simp [effectiveEndLine, down, hunset]

theorem firstLine_down (h : 1 ≤ i.line) (lines : Nat) :
    (i.down lines).firstLine = i.firstLine + lines := by
  simp only [firstLine, down]
  omega

theorem lastLine_down (h : 1 ≤ i.effectiveEndLine) (lines : Nat) :
    (i.down lines).lastLine = i.lastLine + lines := by
  simp only [lastLine, effectiveEndLine_down]
  omega

end Issue

theorem Annotation.further_zero (a : Annotation) : a.further 0 = a := rfl

namespace Document

variable {d d' : Document} {i : Issue} {line lines chars : Nat}

/-- A line of one document is the line `lines` further down in another one, and
starts `chars` characters later there. -/
structure SameLine (d d' : Document) (lines chars line : Nat) : Prop where
  lineStart_eq : d'.lineStart (line + lines) = d.lineStart line + chars
  row_eq : d'.row (line + lines) = d.row line

/-- Both documents keep what an annotation looks at: whether the issue fits, and
its first and last line. -/
structure Keeps (d d' : Document) (i : Issue) (lines chars : Nat) : Prop where
  fits_iff : (i.down lines).Fits d' ↔ i.Fits d
  sameLine : i.Fits d → d.SameLine d' lines chars i.firstLine ∧
    d.SameLine d' lines chars i.lastLine

/-- Cuts around one row make the same line. -/
theorem Cut.sameLine {before before' row after after' : List Char}
    (h : d.Cut line before row after)
    (h' : d'.Cut (line + lines) before' row after')
    (hlength : before'.length = before.length + chars) :
    d.SameLine d' lines chars line where
  lineStart_eq := by rw [h'.lineStart_eq, h.lineStart_eq, hlength]
  row_eq := by rw [h'.row_eq, h.row_eq]

theorem SameLine.offsetAt_eq (h : d.SameLine d' lines chars line)
    (column : Nat) :
    d'.offsetAt ⟨line + lines, column⟩ = d.offsetAt ⟨line, column⟩ + chars := by
  simp only [offsetAt, h.lineStart_eq]
  omega

section Keeps

variable (hfits : i.Fits d) (h : d.Keeps d' i lines chars)
include hfits h

theorem Keeps.startColumn_eq :
    d'.startColumn (i.down lines) = d.startColumn i := by
  rw [startColumn, startColumn, Issue.firstLine_down hfits.given,
    (h.sameLine hfits).1.row_eq]
  rfl

theorem Keeps.endColumn_eq :
    d'.endColumn (i.down lines) = d.endColumn i := by
  have hlast := Issue.lastLine_down (Nat.le_trans hfits.given hfits.ordered) lines
  rw [endColumn, endColumn, hlast, (h.sameLine hfits).2.row_eq]
  rfl

theorem Keeps.highlightStart_eq (wholeLine : Bool) :
    d'.highlightStart (i.down lines) wholeLine =
      ⟨i.firstLine + lines, (d.highlightStart i wholeLine).column⟩ := by
  have hfirst := Issue.firstLine_down hfits.given lines
  have hlast := Issue.lastLine_down (Nat.le_trans hfits.given hfits.ordered) lines
  simp only [highlightStart, indentColumn, h.startColumn_eq hfits,
    h.endColumn_eq hfits, hfirst, hlast, Nat.add_right_cancel_iff,
    (h.sameLine hfits).1.row_eq]

theorem Keeps.highlightStop_eq (wholeLine : Bool) :
    d'.highlightStop (i.down lines) wholeLine =
      ⟨i.lastLine + lines, (d.highlightStop i wholeLine).column⟩ := by
  have hfirst := Issue.firstLine_down hfits.given lines
  have hlast := Issue.lastLine_down (Nat.le_trans hfits.given hfits.ordered) lines
  simp only [highlightStop, h.startColumn_eq hfits, h.endColumn_eq hfits, hfirst,
    hlast, Nat.add_right_cancel_iff, (h.sameLine hfits).2.row_eq]

end Keeps

/-- What keeps the lines of an issue keeps its annotation. -/
theorem Keeps.annotate?_eq (h : d.Keeps d' i lines chars)
    (o : AnnotationOptions) :
    d'.annotate? o (i.down lines) =
      (d.annotate? o i).map (·.further chars) := by
  by_cases hfits : i.Fits d
  · have hlast := Issue.lastLine_down
      (Nat.le_trans hfits.given hfits.ordered) lines
    obtain ⟨hsameFirst, hsameLast⟩ := h.sameLine hfits
    have hstart := hsameFirst.offsetAt_eq
      (d.highlightStart i o.wholeLine).column
    have hstop := hsameLast.offsetAt_eq
      (d.highlightStop i o.wholeLine).column
    rw [annotate?_of_fits hfits, annotate?_of_fits (h.fits_iff.2 hfits),
      h.highlightStart_eq hfits, h.highlightStop_eq hfits, hstart, hstop,
      h.startColumn_eq hfits, Issue.firstLine_down hfits.given, hlast,
      hsameFirst.row_eq]
    simp only [Nat.add_right_cancel_iff]
    rfl
  · have hnone : d.annotate? o i = none := by
      rwa [← Option.not_isSome_iff_eq_none, isSome_annotate?_iff]
    have hnone' : d'.annotate? o (i.down lines) = none := by
      rwa [← Option.not_isSome_iff_eq_none, isSome_annotate?_iff, h.fits_iff]
    rw [hnone, hnone']
    rfl

/-- Whole lines in front of a cut make a cut further down. -/
theorem Cut.behind {front before row after : List Char}
    (h : d.Cut line before row after) (hfront : WholeLines front) :
    (d.behind front).Cut (line + front.count '\n') (front ++ before) row
      after where
  chars_eq := by rw [Document.behind, h.chars_eq, List.append_assoc]
  feeds_before := by rw [List.count_append, h.feeds_before, Nat.add_comm]
  wholeLines := by
    rcases h.wholeLines with rfl | ⟨init, rfl⟩
    · rwa [List.append_nil]
    · exact Or.inr ⟨front ++ init, by simp⟩
  noFeed := h.noFeed
  follows := h.follows

theorem lineCount_behind (d : Document) (front : List Char) :
    (d.behind front).lineCount = d.lineCount + front.count '\n' := by
  simp only [lineCount, behind, List.count_append]
  omega

theorem sameLine_behind {front : List Char} (hfront : WholeLines front)
    (hline : line < d.lineCount) :
    d.SameLine (d.behind front) (front.count '\n') front.length line := by
  refine (d.cut hline).sameLine ((d.cut hline).behind hfront) ?_
  rw [List.length_append, Nat.add_comm]

theorem keeps_behind {front : List Char} (hfront : WholeLines front)
    (hgiven : 1 ≤ i.line) :
    d.Keeps (d.behind front) i (front.count '\n') front.length where
  fits_iff := by
    have hlast := i.effectiveEndLine_down (front.count '\n')
    have hcount := d.lineCount_behind front
    have hline : (i.down (front.count '\n')).line =
        i.line + front.count '\n' := rfl
    constructor
    · rintro ⟨-, hordered, hinside⟩
      exact ⟨hgiven, by omega, by omega⟩
    · rintro ⟨-, hordered, hinside⟩
      exact ⟨by omega, by omega, by omega⟩
  sameLine := fun h =>
    ⟨sameLine_behind hfront h.firstLine_lt, sameLine_behind hfront h.lastLine_lt⟩

/-- Text behind a document leaves the cuts of all lines but the last one. -/
theorem Cut.followedBy {before row after : List Char}
    (h : d.Cut line before row after) (hinner : line + 1 < d.lineCount)
    (rest : List Char) :
    (d.followedBy rest).Cut line before row (after ++ rest) where
  chars_eq := by simp [Document.followedBy, h.chars_eq]
  feeds_before := h.feeds_before
  wholeLines := h.wholeLines
  noFeed := h.noFeed
  follows := by
    have hcount := h.lineCount_eq
    cases h.follows with
    | nothing =>
        simp only [List.count_nil] at hcount
        omega
    | feed more hbare => exact .feed (more ++ rest) hbare
    | carriage more => exact .carriage (more ++ rest)

theorem sameLine_followedBy (hinner : line + 1 < d.lineCount)
    (rest : List Char) :
    d.SameLine (d.followedBy rest) 0 0 line := by
  have hcut := d.cut (Nat.lt_of_succ_lt hinner)
  exact hcut.sameLine (hcut.followedBy hinner rest) rfl

theorem keeps_followedBy (hinner : i.effectiveEndLine < d.lineCount)
    (rest : List Char) :
    d.Keeps (d.followedBy rest) i 0 0 where
  fits_iff := by
    have hcount : (d.followedBy rest).lineCount =
        d.lineCount + rest.count '\n' := by
      simp only [lineCount, followedBy, List.count_append]
      omega
    rw [Issue.down_zero]
    constructor
    · rintro ⟨hgiven, hordered, -⟩
      exact ⟨hgiven, hordered, by omega⟩
    · rintro ⟨hgiven, hordered, -⟩
      exact ⟨hgiven, hordered, by omega⟩
  sameLine := by
    rintro ⟨hgiven, hordered, -⟩
    constructor
    · refine sameLine_followedBy ?_ rest
      simp only [Issue.firstLine]
      omega
    · refine sameLine_followedBy ?_ rest
      simp only [Issue.lastLine]
      omega

/-- Whole lines in front of a text move its issues down by their number and the
ranges on by their length, and drop no issue and admit none.  Text behind a line
feed changes no annotation of the lines before it. -/
theorem annotate?_local (o : AnnotationOptions) :
    (∀ (p t : List Char) (i : Issue), WholeLines p → 1 ≤ i.line →
      (Document.mk (p ++ t)).annotate? o (i.down (p.count '\n')) =
        ((Document.mk t).annotate? o i).map (·.further p.length)) ∧
    ∀ (t s : List Char) (i : Issue),
      i.effectiveEndLine ≤ (t ++ ['\n']).count '\n' →
      (Document.mk (t ++ ['\n'] ++ s)).annotate? o i =
        (Document.mk (t ++ ['\n'])).annotate? o i := by
  constructor
  · intro p t i hfront hgiven
    exact (keeps_behind (d := ⟨t⟩) hfront hgiven).annotate?_eq o
  · intro t s i hinner
    have hkeeps := keeps_followedBy (d := ⟨t ++ ['\n']⟩) (i := i)
      (Nat.lt_succ_of_le hinner) s
    have hsame := hkeeps.annotate?_eq o
    simp only [Issue.down_zero, Annotation.further_zero, Option.map_id_fun'] at hsame
    exact hsame

/-- Three lines in front, and a last line that ends in a carriage return; then a
blank row that ends in one, with and without text behind its line feed. -/
theorem annotate?_local_of_carriage_returns :
    WholeLines "#!/bin/sh\r\n\n\t#\n".toList ∧
    1 ≤ ({ line := 2, column := 9, endColumn := 99 } : Issue).line ∧
    (Document.mk ("#!/bin/sh\r\n\n\t#\n".toList ++ "a\r\n\tb\r".toList)).annotate?
        {} (Issue.down { line := 2, column := 9, endColumn := 99 } 3) =
      some ⟨4 + 15, 6 + 15, .info, " [none]", none, "shellcheck", false⟩ ∧
    ({ line := 1, endLine := 2 } : Issue).effectiveEndLine ≤
      ("if\n \t\r".toList ++ ['\n']).count '\n' ∧
    (Document.mk ("if\n \t\r".toList ++ ['\n'] ++ "fi".toList)).annotate?
        { wholeLine := true } { line := 1, endLine := 2 } =
      (Document.mk ("if\n \t\r".toList ++ ['\n'])).annotate?
        { wholeLine := true } { line := 1, endLine := 2 } :=
  have hfront : WholeLines "#!/bin/sh\r\n\n\t#\n".toList :=
    Or.inr ⟨"#!/bin/sh\r\n\n\t#".toList, rfl⟩
  have hannotate : (Document.mk "a\r\n\tb\r".toList).annotate? {}
      { line := 2, column := 9, endColumn := 99 } =
        some ⟨4, 6, .info, " [none]", none, "shellcheck", false⟩ := by decide
  have hmoved := (annotate?_local {}).1 _ "a\r\n\tb\r".toList
    { line := 2, column := 9, endColumn := 99 } hfront (by decide)
  ⟨hfront, by decide, hmoved.trans (congrArg (Option.map (·.further 15)) hannotate),
    by decide, (annotate?_local { wholeLine := true }).2 _ _
      { line := 1, endLine := 2 } (by decide)⟩

end Document

end Lintmark
