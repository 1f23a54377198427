/-
Line endings do not move annotations.  Two documents with the same rows place an
issue at the same lines and columns, and a document keeps its rows when each of
its line feeds gets a carriage return in front.
-/
import Mathlib.Data.List.Forall2
import Lintmark.Report
import Lintmark.Proofs.Annotation.Placement

namespace Lintmark

/-- Two documents have the same lines, their terminators aside. -/
structure Document.SameRows (d d' : Document) : Prop where
  lineCount_eq : d.lineCount = d'.lineCount
  row_eq : ∀ line < d.lineCount, d.row line = d'.row line

/-- Annotations of two documents are the same but for their offsets, and these
stand for the same lines and columns. -/
structure Document.Agrees (d d' : Document) (a a' : Annotation) : Prop where
  severity : a.severity = a'.severity
  message : a.message = a'.message
  code : a.code = a'.code
  source : a.source = a'.source
  atLineEnd : a.atLineEnd = a'.atLineEnd
  start : d.positionOf a.start = d'.positionOf a'.start
  stop : d.positionOf a.stop = d'.positionOf a'.stop

namespace Document

variable {d d' : Document} {i : Issue}

theorem SameRows.fits_iff (h : d.SameRows d') : i.Fits d ↔ i.Fits d' :=
  ⟨fun ⟨hgiven, hordered, hinside⟩ =>
      ⟨hgiven, hordered, h.lineCount_eq ▸ hinside⟩,
    fun ⟨hgiven, hordered, hinside⟩ =>
      ⟨hgiven, hordered, h.lineCount_eq ▸ hinside⟩⟩

theorem SameRows.highlightStart_eq (h : d.SameRows d') (hfits : i.Fits d)
    (wholeLine : Bool) :
      d.highlightStart i wholeLine = d'.highlightStart i wholeLine := by
  simp only [highlightStart, indentColumn, startColumn, endColumn,
    h.row_eq _ hfits.firstLine_lt, h.row_eq _ hfits.lastLine_lt]

theorem SameRows.highlightStop_eq (h : d.SameRows d') (hfits : i.Fits d)
    (wholeLine : Bool) :
      d.highlightStop i wholeLine = d'.highlightStop i wholeLine := by
  simp only [highlightStop, startColumn, endColumn,
    h.row_eq _ hfits.firstLine_lt, h.row_eq _ hfits.lastLine_lt]

theorem SameRows.annotate?_agrees (h : d.SameRows d') (o : AnnotationOptions)
    (i : Issue) :
    Option.Rel (Agrees d d') (d.annotate? o i) (d'.annotate? o i) := by
  by_cases hfits : i.Fits d
  · have hfits' := h.fits_iff.1 hfits
    rw [annotate?_of_fits hfits, annotate?_of_fits hfits']
    have hstart :=
      positionOf_offsetAt (reaches_highlightStart hfits o.wholeLine)
    have hstart' :=
      positionOf_offsetAt (reaches_highlightStart hfits' o.wholeLine)
    have hstop := positionOf_offsetAt (reaches_highlightStop hfits o.wholeLine)
    have hstop' :=
      positionOf_offsetAt (reaches_highlightStop hfits' o.wholeLine)
    refine .some ⟨rfl, rfl, rfl, rfl, ?_, ?_, ?_⟩
    · rw [decide_eq_decide, startColumn, startColumn,
        h.row_eq _ hfits.firstLine_lt]
    · rw [hstart, hstart', h.highlightStart_eq hfits]
    · rw [hstop, hstop', h.highlightStop_eq hfits]
  · have hnone : d.annotate? o i = none := by
      rwa [← Option.not_isSome_iff_eq_none, isSome_annotate?_iff]
    have hnone' : d'.annotate? o i = none := by
      rwa [← Option.not_isSome_iff_eq_none, isSome_annotate?_iff, ← h.fits_iff]
    rw [hnone, hnone']
    exact .none

theorem SameRows.annotations_agree (h : d.SameRows d') (o : AnnotationOptions)
    (issues : List Issue) :
    List.Forall₂ (Agrees d d') (d.annotations o issues)
      (d'.annotations o issues) := by
  refine List.rel_filterMap (R := (· = ·)) ?_
    (List.forall₂_same.2 fun _ _ => rfl)
  rintro i _ rfl
  exact h.annotate?_agrees o i

/-- The same position, severity and message make the same line. -/
theorem humanLine_eq_of_agrees {a a' : Annotation} (path : Path)
    (h : d.Agrees d' a a') :
    humanLine path d a = humanLine path d' a' := by
  rw [humanLine, humanLine, h.start, h.severity, h.message]

theorem SameRows.humanLines_eq (h : d.SameRows d') (path : Path)
    (o : AnnotationOptions) (issues : List Issue) :
    (d.annotations o issues).map (humanLine path d) =
      (d'.annotations o issues).map (humanLine path d') := by
  rw [← List.forall₂_eq_eq_eq, List.forall₂_map_left_iff,
    List.forall₂_map_right_iff]
  exact (h.annotations_agree o issues).imp fun _ _ =>
    humanLine_eq_of_agrees path

/-- Put a carriage return before each line feed. -/
def crlf (cs : List Char) : List Char :=
  cs.flatMap fun c => if c = '\n' then ['\r', '\n'] else [c]

def withCrlf (d : Document) : Document :=
  ⟨crlf d.chars⟩

@[simp]
theorem crlf_append (xs ys : List Char) :
    crlf (xs ++ ys) = crlf xs ++ crlf ys :=
  List.flatMap_append

theorem crlf_eq_self {cs : List Char} (h : '\n' ∉ cs) : crlf cs = cs := by
  induction cs with
  | nil => rfl
  | cons c cs ih =>
      simp only [List.mem_cons, not_or] at h
      have hc : c ≠ '\n' := Ne.symm h.1
      have hrest : crlf cs = cs := ih h.2
      simpa [crlf, hc] using hrest

theorem count_crlf (cs : List Char) : (crlf cs).count '\n' = cs.count '\n' := by
  induction cs with
  | nil => rfl
  | cons c cs ih =>
      have hsplit : crlf (c :: cs) =
          (if c = '\n' then ['\r', '\n'] else [c]) ++ crlf cs := rfl
      rw [hsplit, List.count_append, ih]
      split
      · rename_i hc
        simp [hc, Nat.add_comm]
      · rename_i hc
        simp [hc]

theorem WholeLines.crlf {cs : List Char} (h : WholeLines cs) :
    WholeLines (crlf cs) := by
  rcases h with rfl | ⟨init, rfl⟩
  · exact Or.inl rfl
  · exact Or.inr ⟨Document.crlf init ++ ['\r'], by simp [Document.crlf]⟩

/-- A cut stays a cut: the row is untouched, and the terminator behind it gets
its carriage return. -/
theorem Cut.withCrlf {line : Nat} {before row after : List Char}
    (h : d.Cut line before row after) (hreturn : '\r' ∉ d.chars) :
    d.withCrlf.Cut line (crlf before) row (crlf after) where
  chars_eq := by
    rw [Document.withCrlf, h.chars_eq, crlf_append, crlf_append,
      crlf_eq_self h.noFeed]
  feeds_before := by rw [count_crlf, h.feeds_before]
  wholeLines := h.wholeLines.crlf
  noFeed := h.noFeed
  follows := by
    rw [h.chars_eq] at hreturn
    cases h.follows with
    | nothing => exact .nothing
    | feed rest _ => exact .carriage (crlf rest)
    | carriage rest => simp at hreturn

theorem lineCount_withCrlf (d : Document) :
    d.withCrlf.lineCount = d.lineCount := by
  rw [lineCount, withCrlf, count_crlf, lineCount]

theorem sameRows_withCrlf (hreturn : '\r' ∉ d.chars) :
    d.SameRows d.withCrlf where
  lineCount_eq := d.lineCount_withCrlf.symm
  row_eq := by
    intro line hline
    exact ((d.cut hline).withCrlf hreturn).row_eq.symm

/-- Writing `\r\n` for every line feed of a document without carriage returns
keeps the same issues in their order, their annotations but for the offsets, the
line and column of every range, and the text that is printed for people. -/
theorem annotations_withCrlf (d : Document) (hreturn : '\r' ∉ d.chars)
    (o : AnnotationOptions) (issues : List Issue) :
    let kept := issues.filter fun i => (d.annotate? o i).isSome
    kept = issues.filter (fun i => (d.withCrlf.annotate? o i).isSome) ∧
      List.Forall₂ (fun i a => d.annotate? o i = some a) kept
        (d.annotations o issues) ∧
      List.Forall₂ (fun i a => d.withCrlf.annotate? o i = some a) kept
        (d.withCrlf.annotations o issues) ∧
      List.Forall₂ (Agrees d d.withCrlf)
        (d.annotations o issues) (d.withCrlf.annotations o issues) ∧
      ∀ (path : Path) (n : Option Notification)
        (before after : List FileReport),
        humanText (before ++ ⟨path, d, d.annotations o issues, n⟩ :: after) =
          humanText (before ++
            ⟨path, d.withCrlf, d.withCrlf.annotations o issues, n⟩ ::
              after) := by
  intro kept
  have hrows := sameRows_withCrlf hreturn
  have hkept : kept = issues.filter fun i => (d.withCrlf.annotate? o i).isSome := by
    apply List.filter_congr
    intro i _
    rw [Bool.eq_iff_iff, isSome_annotate?_iff, isSome_annotate?_iff,
      hrows.fits_iff]
  refine ⟨hkept, forall₂_annotations d o issues, ?_, hrows.annotations_agree o issues, ?_⟩
  · rw [hkept]
    exact forall₂_annotations d.withCrlf o issues
  · intro path n before after
    simp only [humanText, List.flatMap_append, List.flatMap_cons,
      hrows.humanLines_eq path]

/-- An indented script of four lines, the third one empty.  Of three findings the second
one is behind its end. -/
theorem annotations_withCrlf_of_indented_script :
    let d := ofString "if x\n\ty\n\nfi"
    let o : AnnotationOptions := { wholeLine := true }
    let lines : Issue := { line := 2, endLine := 4 }
    let empty : Issue := { line := 3, column := 9 }
    let issues := [lines, { line := 5 }, empty]
    d.withCrlf = ofString "if x\r\n\ty\r\n\r\nfi" ∧
      (d.annotations o issues).map (fun a => (a.start, a.stop)) = [(6, 11), (8, 8)] ∧
      (d.withCrlf.annotations o issues).map (fun a => (a.start, a.stop)) =
        [(7, 14), (10, 10)] ∧
      List.Forall₂ (fun i a => d.withCrlf.annotate? o i = some a) [lines, empty]
        (d.withCrlf.annotations o issues) ∧
      List.Forall₂ (Agrees d d.withCrlf) (d.annotations o issues)
        (d.withCrlf.annotations o issues) := by
  intro d o lines empty issues
  have hreturn : '\r' ∉ (ofString "if x\n\ty\n\nfi").chars := by decide
  obtain ⟨-, -, hpairs, hagree, -⟩ := annotations_withCrlf d hreturn o issues
  have hkept : issues.filter (fun i => (d.annotate? o i).isSome) = [lines, empty] := by
    decide
  rw [hkept] at hpairs
  exact ⟨by decide, by decide, by decide, hpairs, hagree⟩

end Document

end Lintmark
