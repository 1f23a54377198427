/-
An immutable document and its line index.  Offsets count characters from the
start of the document, and only a line feed ends a line.
-/
namespace Lintmark

structure Document where
  chars : List Char
deriving Repr, DecidableEq

namespace Document

def ofString (s : String) : Document :=
  ⟨s.toList⟩

def charCount (d : Document) : Nat :=
  d.chars.length

/-- Number of lines: one more than there are line feeds. -/
def lineCount (d : Document) : Nat :=
  d.chars.count '\n' + 1

def charAt? (d : Document) (offset : Nat) : Option Char :=
  d.chars[offset]?

/-- Number of characters before line `line`; all of them when there is no such
line. -/
def offsetOfLine : List Char → Nat → Nat
  | _, 0 => 0
  | [], _ + 1 => 0
  | c :: cs, line + 1 => offsetOfLine cs (if c = '\n' then line else line + 1) + 1

/-- Offset of the first character of a line.  A line past the last one starts
at the end of the document. -/
def lineStart (d : Document) (line : Nat) : Nat :=
  offsetOfLine d.chars line

/-- Offset behind the last character of a line, its terminator excluded.  A
carriage return belongs to the terminator when it stands on the line, right
before the line feed.  A line past the last one ends with the document. -/
def lineEnd (d : Document) (line : Nat) : Nat :=
  if line + 1 ≥ d.lineCount then d.charCount
  else
    let feed := d.lineStart (line + 1) - 1
    if feed > d.lineStart line ∧ d.charAt? (feed - 1) = some '\r' then feed - 1 else feed

def slice (d : Document) (start stop : Nat) : List Char :=
  (d.chars.drop start).take (stop - start)

/-- The text of a line without its terminator. -/
def lineText? (d : Document) (line : Nat) : Option String :=
  if line < d.lineCount then
    some (String.ofList (d.slice (d.lineStart line) (d.lineEnd line)))
  else none

/-- A line and a column in it, both counted from zero, the column in
characters. -/
structure Position where
  line : Nat
  column : Nat
deriving Repr, DecidableEq

/-- The position of an offset.  An offset past the end stands for the end. -/
def positionOf (d : Document) (offset : Nat) : Position :=
  let offset := min offset d.charCount
  let line := (d.chars.take offset).count '\n'
  ⟨line, offset - d.lineStart line⟩

/-- Indentation: spaces and tabs. -/
def isIndent (c : Char) : Bool :=
  c == ' ' || c == '\t'

/-- First offset in `start..stop` that holds neither a space nor a tab, and
`start` if all of them do.  Offsets past the end count as neither. -/
def firstNonIndent (d : Document) (start stop : Nat) : Nat :=
  let first := start + ((d.chars.drop start).takeWhile isIndent).length
  if first < stop then first else start

end Document

end Lintmark
