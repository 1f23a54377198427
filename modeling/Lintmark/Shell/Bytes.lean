/-
Bytes in the hands of the shell: one character, below 256, for each byte, so
that scripts and data can be read alike.
-/
import Lintmark.Text.Utf8

namespace Lintmark.Shell

/-- Characters that stand for one byte each. -/
abbrev Bytes := List Char

def ofBytes (bs : List UInt8) : Bytes :=
  bs.map fun b => Char.ofNat b.toNat

def toBytes (cs : Bytes) : List UInt8 :=
  cs.map fun c => c.toNat.toUInt8

def ofText (s : String) : Bytes :=
  ofBytes (Text.Utf8.encode s.toList)

def toText (cs : Bytes) : String :=
  String.ofList (Text.Utf8.decodeLossy (toBytes cs))

def natural? (cs : Bytes) : Option Nat :=
  if cs ≠ [] && cs.all Char.isDigit then
    some (cs.foldl (fun n c => n * 10 + (c.toNat - '0'.toNat)) 0)
  else none

def integer? (cs : Bytes) : Option Int :=
  match cs with
  | '-' :: cs => (natural? cs).map fun n => -(n : Int)
  | '+' :: cs => (natural? cs).map fun n => (n : Int)
  | cs => (natural? cs).map fun n => (n : Int)

def decimal (n : Nat) : Bytes :=
  Nat.toDigits 10 n

/-- The value of at most `count` octal digits in front, and what follows them. -/
def octal (count : Nat) (cs : Bytes) : Nat × Bytes :=
  let isOctal (c : Char) : Bool := '0' ≤ c && c ≤ '7'
  let ds := (cs.take count).takeWhile isOctal
  (ds.foldl (fun n c => n * 8 + (c.toNat - '0'.toNat)) 0, cs.drop ds.length)

def escapeLetter? : Char → Option Char
  | 'a' => some '\x07'
  | 'b' => some '\x08'
  | 'f' => some '\x0c'
  | 'n' => some '\n'
  | 'r' => some '\r'
  | 't' => some '\t'
  | 'v' => some '\x0b'
  | '\\' => some '\\'
  | _ => none

end Lintmark.Shell
