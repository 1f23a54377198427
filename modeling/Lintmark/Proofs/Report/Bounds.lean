/-
Bounds of the way from issues to printed lines.  Every function on it is run once more,
with sums and differences in 64 bits and an index of the text that answers only for
lines and offsets that it has.  Such a run never stops, whatever lines and columns the
issues name, and gives what the plain functions give.
-/
import Mathlib.Algebra.Group.Nat.Defs
import Lintmark.Report
import Lintmark.Proofs.Annotation.Placement
import Lintmark.Proofs.Document.Partition

namespace Lintmark

inductive Fault where
  | noLine (line : Nat)
  | noOffset (offset : Nat)
  | overflow
  | underflow
deriving Repr, DecidableEq

/-- The result of operations that are not defined everywhere. -/
abbrev Checked := Except Fault

@[simp]
theorem Checked.ok_bind {α β : Type} (a : α) (f : α → Checked β) :
    (Except.ok a >>= f) = f a := rfl

/-- An operation with a guard is defined where the guard holds. -/
theorem Checked.guard_eq_ok_iff {α : Type} {p : Prop} [Decidable p] {a b : α} {f : Fault} :
    (if p then Except.ok a else Except.error f : Checked α) = .ok b ↔ p ∧ a = b := by
  by_cases h : p <;> simp [h]

namespace Word

variable {a b c : Nat}

/-- A sum, unless it wraps around. -/
def add (a b : Nat) : Checked Nat :=
  if a + b < 2 ^ 64 then .ok (a + b) else .error .overflow

/-- A difference, unless it falls below zero. -/
def sub (a b : Nat) : Checked Nat :=
  if b ≤ a then .ok (a - b) else .error .underflow

theorem add_eq_ok_iff : add a b = .ok c ↔ a + b < 2 ^ 64 ∧ a + b = c :=
  Checked.guard_eq_ok_iff

theorem sub_eq_ok_iff : sub a b = .ok c ↔ b ≤ a ∧ a - b = c :=
  Checked.guard_eq_ok_iff

end Word

namespace Document

variable {d : Document} {line offset : Nat}

/-- The offset where a line starts.  The line behind the last one is allowed. -/
def lineToChar (d : Document) (line : Nat) : Checked Nat :=
  if line ≤ d.lineCount then .ok (d.lineStart line) else .error (.noLine line)

def charToLine (d : Document) (offset : Nat) : Checked Nat :=
  if offset ≤ d.charCount then .ok ((d.chars.take offset).count '\n')
  else .error (.noOffset offset)

def char (d : Document) (offset : Nat) : Checked Char :=
  match d.charAt? offset with
  | some c => .ok c
  | none => .error (.noOffset offset)

theorem lineToChar_eq_ok_iff {n : Nat} :
    d.lineToChar line = .ok n ↔ line ≤ d.lineCount ∧ d.lineStart line = n :=
  Checked.guard_eq_ok_iff

theorem charToLine_eq_ok_iff {n : Nat} :
    d.charToLine offset = .ok n ↔ offset ≤ d.charCount ∧ d.lineOf offset = n :=
  Checked.guard_eq_ok_iff

theorem char_eq_ok_iff {c : Char} : d.char offset = .ok c ↔ d.charAt? offset = some c := by
  cases h : d.charAt? offset <;> simp [char, h]

theorem exists_char (hoffset : offset < d.charCount) :
    ∃ c, d.char offset = .ok c ∧ d.charAt? offset = some c := by
  have hchar := List.getElem?_eq_getElem hoffset
  exact ⟨_, char_eq_ok_iff.mpr hchar, hchar⟩

def checkedLineStart (d : Document) (line : Nat) : Checked Nat :=
  if line < d.lineCount then d.lineToChar (min line d.lineCount)
  else .error (.noLine line)

def checkedLineEnd (d : Document) (line : Nat) : Checked Nat :=
  if line < d.lineCount then do
    let next ← Word.add line 1
    if next ≥ d.lineCount then .ok d.charCount
    else
      let feed ← Word.sub (← d.lineToChar next) 1
      let start ← d.lineToChar line
      if feed > start then
        let before ← Word.sub feed 1
        let c ← d.char before
        if c = '\r' then Word.sub feed 1 else .ok feed
      else .ok feed
  else .error (.noLine line)

theorem lineCount_le (d : Document) : d.lineCount ≤ d.charCount + 1 :=
  Nat.succ_le_succ List.count_le_length

theorem checkedLineStart_eq (hline : line < d.lineCount) :
    d.checkedLineStart line = .ok (d.lineStart line) := by
  have hle := Nat.le_of_lt hline
  rw [checkedLineStart, if_pos hline, Nat.min_eq_left hle]
  exact lineToChar_eq_ok_iff.mpr ⟨hle, rfl⟩

theorem checkedLineEnd_eq (hsmall : d.charCount < 2 ^ 60) (hline : line < d.lineCount) :
    d.checkedLineEnd line = .ok (d.lineEnd line) := by
  have hcount := d.lineCount_le
  have hnext : Word.add line 1 = .ok (line + 1) := Word.add_eq_ok_iff.mpr ⟨by omega, rfl⟩
  rw [checkedLineEnd, if_pos hline, hnext, Checked.ok_bind]
  by_cases hlast : line + 1 ≥ d.lineCount
  · rw [if_pos hlast, lineEnd, if_pos hlast]
  · obtain ⟨feed, hfeed, hstart, hchar⟩ := exists_feed (Nat.not_le.mp hlast)
    have hinner : d.lineToChar (line + 1) = .ok (feed + 1) :=
      lineToChar_eq_ok_iff.mpr ⟨hline, hfeed⟩
    have hfirst : d.lineToChar line = .ok (d.lineStart line) :=
      lineToChar_eq_ok_iff.mpr ⟨Nat.le_of_lt hline, rfl⟩
    have hback : Word.sub (feed + 1) 1 = .ok feed :=
      Word.sub_eq_ok_iff.mpr ⟨Nat.succ_pos _, rfl⟩
    have hend : d.lineEnd line =
        if feed > d.lineStart line ∧ d.charAt? (feed - 1) = some '\r' then feed - 1
        else feed := by
      rw [lineEnd, if_neg hlast, hfeed]
      rfl
    rw [if_neg hlast, hinner, Checked.ok_bind, hback, Checked.ok_bind, hfirst,
      Checked.ok_bind, hend]
    by_cases hrow : feed > d.lineStart line
    · have hbefore : Word.sub feed 1 = .ok (feed - 1) :=
        Word.sub_eq_ok_iff.mpr ⟨Nat.zero_lt_of_lt hrow, rfl⟩
      have hlt := charAt?_lt_charCount hchar
      obtain ⟨c, hc, hat⟩ := exists_char (by omega : feed - 1 < d.charCount)
      rw [if_pos hrow, hbefore, Checked.ok_bind, hc, Checked.ok_bind, hat]
      by_cases hreturn : c = '\r' <;> simp [hreturn, hrow]
    · simp [hrow]

example : (ofString "a\r\nb").checkedLineEnd 2 = .error (.noLine 2) := by decide

/-- Go through `count` characters from an offset on, behind characters that take up `col`
columns, and stop at the one that reaches past the target. -/
def checkedColumn (d : Document) (target : Nat) : Nat → Nat → Nat → Checked (Option Nat)
  | 0, _, _ => .ok none
  | count + 1, offset, col =>
    match d.charAt? offset with
    | none => .ok none
    | some c => do
      let col ← Word.add col (displayWidth c)
      if col > target then .ok (some offset)
      else d.checkedColumn target count (offset + 1) col

def checkedLanding (d : Document) (start stop column : Nat) : Checked Nat :=
  match column with
  | 0 => .ok start
  | target + 1 => do
    let landing ← d.checkedColumn target (stop - start) start 0
    .ok (landing.getD stop)

theorem displayWidth_le (c : Char) : displayWidth c ≤ 8 := by
  rw [displayWidth]
  split <;> omega

theorem checkedColumn_eq {target count offset col : Nat} (hcol : col ≤ target)
    (hroom : col + 8 * count < 2 ^ 64) :
    d.checkedColumn target count offset col =
      .ok ((cellAt? (d.slice offset (offset + count)) (target - col)).map (offset + ·)) := by
  induction count generalizing offset col with
  | zero => rw [Nat.add_zero, slice_self]; rfl
  | succ count ih =>
      cases hchar : d.charAt? offset with
      | none =>
          have hslice : d.slice offset (offset + (count + 1)) = [] := by
            rw [slice, List.drop_eq_nil_of_le (List.getElem?_eq_none_iff.mp hchar),
              List.take_nil]
          rw [checkedColumn, hchar, hslice]
          rfl
      | some c =>
          have hwidth := displayWidth_le c
          have hadd : Word.add col (displayWidth c) = .ok (col + displayWidth c) :=
            Word.add_eq_ok_iff.mpr ⟨by omega, rfl⟩
          have hslice : d.slice offset (offset + (count + 1)) =
              c :: d.slice (offset + 1) (offset + 1 + count) := by
            rw [slice_eq_cons hchar (by omega), Nat.add_assoc, Nat.add_comm count 1]
          simp only [checkedColumn, hchar, hadd, Checked.ok_bind, hslice, cellAt?]
          by_cases hpast : col + displayWidth c > target
          · rw [if_pos hpast, if_pos (by omega)]
            rfl
          · rw [if_neg hpast, if_neg (by omega), ih (by omega) (by omega), Option.map_map,
              Nat.sub_add_eq]
            congr 2
            funext k
            simp only [Function.comp_apply]
            omega

theorem checkedLanding_eq {start stop : Nat} (hstop : stop ≤ d.charCount)
    (hsmall : d.charCount < 2 ^ 60) (column : Nat) :
    d.checkedLanding start stop column = .ok (d.landing start stop column) := by
  cases column with
  | zero => rfl
  | succ target =>
      have hslice : d.slice start (start + (stop - start)) = d.slice start stop := by
        rw [slice, slice, Nat.add_sub_cancel_left]
      rw [checkedLanding, checkedColumn_eq (Nat.zero_le _) (by omega), hslice,
        Checked.ok_bind, Nat.sub_zero]
      rfl

def checkedSpan (d : Document) (i : Issue) : Checked (Option Span) :=
  match i.line, i.effectiveEndLine with
  | first + 1, last + 1 =>
    if first ≥ d.lineCount ∨ last ≥ d.lineCount ∨ last < first then .ok none
    else do
      let lineStart ← d.checkedLineStart first
      let firstEnd ← d.checkedLineEnd first
      let lastStart ← d.checkedLineStart last
      let lineEnd ← d.checkedLineEnd last
      let columnStart ← d.checkedLanding lineStart firstEnd i.column
      let columnEnd ← d.checkedLanding lastStart lineEnd i.effectiveEndColumn
      .ok (some { lineStart, lineEnd, columnStart, columnEnd })
  | _, _ => .ok none

theorem checkedSpan_eq (hsmall : d.charCount < 2 ^ 60) (i : Issue) :
    d.checkedSpan i = .ok (d.spanOf? i) := by
  cases hline : i.line with
  | zero => simp only [checkedSpan, spanOf?, hline]
  | succ first =>
      cases hend : i.effectiveEndLine with
      | zero => simp only [checkedSpan, spanOf?, hline, hend]
      | succ last =>
          simp only [checkedSpan, spanOf?, hline, hend]
          by_cases hout : first ≥ d.lineCount ∨ last ≥ d.lineCount ∨ last < first
          · rw [if_pos hout, if_pos hout]
          · have hfirst : first < d.lineCount := by omega
            have hlast : last < d.lineCount := by omega
            rw [if_neg hout, if_neg hout]
            simp only [checkedLineStart_eq hfirst, checkedLineEnd_eq hsmall hfirst,
              checkedLineStart_eq hlast, checkedLineEnd_eq hsmall hlast,
              checkedLanding_eq (lineEnd_le_charCount hfirst) hsmall,
              checkedLanding_eq (lineEnd_le_charCount hlast) hsmall, Checked.ok_bind]

/-- The annotation of an issue with this span. -/
def annotationAt (d : Document) (o : AnnotationOptions) (i : Issue) (s : Span) :
    Annotation :=
  let h := d.highlight s o.wholeLine
  { start := h.start
    stop := h.stop
    severity := .ofLevel i.level o.demote
    message := i.formatted
    code := i.displayCode
    source := annotationSource
    atLineEnd := h.atLineEnd }

def checkedAnnotations (d : Document) (o : AnnotationOptions) (issues : List Issue) :
    Checked (List Annotation) := do
  let annotations ← issues.mapM fun i => do
    let span ← d.checkedSpan i
    pure (span.map (d.annotationAt o i))
  pure (annotations.filterMap id)

theorem checkedAnnotations_eq (hsmall : d.charCount < 2 ^ 60) (o : AnnotationOptions)
    (issues : List Issue) :
    d.checkedAnnotations o issues = .ok (d.annotations o issues) := by
  have heach (i : Issue) : (do
      let span ← d.checkedSpan i
      pure (span.map (d.annotationAt o i)) : Checked (Option Annotation)) =
        pure (d.annotate? o i) := by
    rw [checkedSpan_eq hsmall, Checked.ok_bind]
    rfl
  rw [checkedAnnotations, funext heach, List.mapM_pure, pure_bind, annotations,
    List.filterMap_map]
  rfl

def checkedPosition (d : Document) (offset : Nat) : Checked Position := do
  let offset := min offset d.charCount
  let line ← d.charToLine offset
  let start ← d.lineToChar line
  let column ← Word.sub offset start
  .ok ⟨line, column⟩

theorem checkedPosition_eq (d : Document) (offset : Nat) :
    d.checkedPosition offset = .ok (d.positionOf offset) := by
  have hline := d.lineOf_lt_lineCount (min offset d.charCount)
  have hat : d.charToLine (min offset d.charCount) =
      .ok (d.lineOf (min offset d.charCount)) :=
    charToLine_eq_ok_iff.mpr ⟨Nat.min_le_right _ _, rfl⟩
  have hstart : d.lineToChar (d.lineOf (min offset d.charCount)) =
      .ok (d.lineStart (d.lineOf (min offset d.charCount))) :=
    lineToChar_eq_ok_iff.mpr ⟨Nat.le_of_lt hline, rfl⟩
  have hcolumn := Word.sub_eq_ok_iff.mpr
    ⟨d.lineStart_lineOf_le (min offset d.charCount), rfl⟩
  simp only [checkedPosition, hat, hstart, hcolumn, Checked.ok_bind]
  rfl

end Document

def checkedHumanLine (path : Path) (d : Document) (a : Annotation) : Checked String := do
  let p ← d.checkedPosition a.start
  let line ← Word.add p.line 1
  let column ← Word.add p.column 1
  pure (path.text ++ ":" ++ toString line ++ ":" ++ toString column ++ ": " ++
    a.severity.label ++ ": " ++ a.message)

theorem checkedHumanLine_eq {d : Document} (hsmall : d.charCount < 2 ^ 60) (path : Path)
    (a : Annotation) : checkedHumanLine path d a = pure (humanLine path d a) := by
  have hposition := d.isPosition_positionOf a.start
  have hcount := d.lineCount_le
  have hline := hposition.line_lt
  have hoffset := hposition.offset_eq
  have haddLine : Word.add (d.positionOf a.start).line 1 =
      .ok ((d.positionOf a.start).line + 1) := Word.add_eq_ok_iff.mpr ⟨by omega, rfl⟩
  have haddColumn : Word.add (d.positionOf a.start).column 1 =
      .ok ((d.positionOf a.start).column + 1) := Word.add_eq_ok_iff.mpr ⟨by omega, rfl⟩
  simp only [checkedHumanLine, d.checkedPosition_eq, haddLine, haddColumn, Checked.ok_bind]
  rfl

/-- Place issues on a document and print a line for each that fits. -/
def checkedLines (path : Path) (d : Document) (o : AnnotationOptions)
    (issues : List Issue) : Checked (List String) := do
  let annotations ← d.checkedAnnotations o issues
  annotations.mapM (checkedHumanLine path d)

/-- On a text of less than `2 ^ 60` characters no operation is undefined, and the lines
are those of the plain functions. -/
theorem checkedLines_eq (path : Path) {d : Document} (hsmall : d.charCount < 2 ^ 60)
    (o : AnnotationOptions) (issues : List Issue) :
    checkedLines path d o issues =
      .ok ((d.annotations o issues).map (humanLine path d)) := by
  have heach := funext (checkedHumanLine_eq hsmall path)
  rw [checkedLines, Document.checkedAnnotations_eq hsmall, Checked.ok_bind, heach]
  exact List.mapM_pure

theorem checkedLines_eq_of_wild_positions :
    checkedLines ⟨"a.sh"⟩ (.ofString "if\t[\r\n\n\r") {} [
        { line := 0, endLine := 2 ^ 64 - 1 },
        { line := 1, column := 2 ^ 64 - 1, level := "error" },
        { line := 1, endLine := 3, column := 4, endColumn := 2 ^ 64 - 1 },
        { line := 3, column := 2, level := "warning" },
        { line := 3, endLine := 4 },
        { line := 4 },
        { line := 2 ^ 64 - 1, endLine := 2 ^ 64 - 1 }] =
      .ok ["a.sh:1:5: error:  [none]", "a.sh:1:3: info:  [none]",
        "a.sh:3:2: warning:  [none]"] :=
  (checkedLines_eq ⟨"a.sh"⟩ (by decide) {} _).trans (by decide)

end Lintmark
