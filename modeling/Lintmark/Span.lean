/-
Where an issue lies in a document, and what of it is highlighted.  The linter counts
in display columns, where a tab takes eight and every other character one, while the
document stores a tab as one character.  An issue whose lines the document does not have,
or whose lines are reversed, lies nowhere.
-/
import Lintmark.Document
import Lintmark.Issue

namespace Lintmark

/-- Display width of a character. -/
def displayWidth (c : Char) : Nat :=
  if c = '\t' then 8 else 1

def displayWidths : List Char → Nat
  | [] => 0
  | c :: cs => displayWidth c + displayWidths cs

/-- Index of the character that covers display column `target` of a row, both
counted from zero. -/
def cellAt? : List Char → Nat → Option Nat
  | [], _ => none
  | c :: cs, target =>
    if target < displayWidth c then some 0
    else (cellAt? cs (target - displayWidth c)).map (· + 1)

/-- Offset in `start..stop` of the character that covers display column
`target`, counted from `start`; `none` when the characters there end before
that column. -/
def Document.offsetOfColumn? (d : Document) (start stop target : Nat) : Option Nat :=
  (cellAt? (d.slice start stop) target).map (start + ·)

/-- The offsets that an issue names. -/
structure Span where
  lineStart : Nat
  /-- End of the last line, its terminator excluded. -/
  lineEnd : Nat
  /-- Where the start column falls on the first line. -/
  columnStart : Nat
  /-- Where the end column falls on the last line. -/
  columnEnd : Nat
deriving Repr, DecidableEq

namespace Document

/-- Where a display column, counted from one, falls in the row `start..stop`.
A column that was not given falls on the start, and one past the row on its
end. -/
def landing (d : Document) (start stop column : Nat) : Nat :=
  match column with
  | 0 => start
  | target + 1 => (d.offsetOfColumn? start stop target).getD stop

/-- The span of an issue, if all its lines are in the document and in order. -/
def spanOf? (d : Document) (i : Issue) : Option Span :=
  match i.line, i.effectiveEndLine with
  | first + 1, last + 1 =>
    if first ≥ d.lineCount ∨ last ≥ d.lineCount ∨ last < first then none
    else
      some {
        lineStart := d.lineStart first
        lineEnd := d.lineEnd last
        columnStart := d.landing (d.lineStart first) (d.lineEnd first) i.column
        columnEnd := d.landing (d.lineStart last) (d.lineEnd last) i.effectiveEndColumn }
  | _, _ => none

end Document

/-- A highlighted range of offsets.  A range without characters marks a place. -/
structure Highlight where
  start : Nat
  stop : Nat
  atLineEnd : Bool
deriving Repr, DecidableEq

def Highlight.isEmpty (h : Highlight) : Bool :=
  h.start == h.stop

/-- Choose what to highlight of a span.  Reversed columns are put in order. -/
def Document.highlight (d : Document) (s : Span) (wholeLine : Bool) : Highlight :=
  let atLineEnd := s.columnStart == s.lineEnd
  if wholeLine then ⟨d.firstNonIndent s.lineStart s.lineEnd, s.lineEnd, atLineEnd⟩
  else ⟨min s.columnStart s.columnEnd, max s.columnStart s.columnEnd, atLineEnd⟩

end Lintmark
