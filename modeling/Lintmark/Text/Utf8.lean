/-
UTF-8 as a machine that takes one byte at a time.  Strict decoding accepts
well-formed bytes only; lossy decoding writes one replacement character for
each maximal prefix of a character that its bytes fail to complete.
-/
namespace Lintmark.Text.Utf8

/-- A character whose lead byte has been read: `more` bytes are missing, the
next of them lies between `lo` and `hi`, and `bits` holds what is known. -/
structure Partial where
  more : Nat
  lo : UInt8
  hi : UInt8
  bits : Nat

/-- What a byte starts. -/
inductive Start where
  | whole (c : Char)
  | lead (p : Partial)
  | invalid

/-- Classify a byte that stands where a character starts.  The range of the
second byte keeps out overlong forms, surrogates and values past U+10FFFF. -/
def start (b : UInt8) : Start :=
  if b < 0x80 then .whole (Char.ofNat b.toNat)
  else if b < 0xc2 then .invalid
  else if b < 0xe0 then .lead ⟨1, 0x80, 0xbf, b.toNat % 0x20⟩
  else if b < 0xf0 then
    .lead ⟨2, if b = 0xe0 then 0xa0 else 0x80, if b = 0xed then 0x9f else 0xbf, b.toNat % 0x10⟩
  else if b < 0xf5 then
    .lead ⟨3, if b = 0xf0 then 0x90 else 0x80, if b = 0xf4 then 0x8f else 0xbf, b.toNat % 0x08⟩
  else .invalid

/-- The character shown for bytes that are no character. -/
def replacement : Char := '\ufffd'

/-- The state of decoding: the characters so far, last one first, whether all
bytes were well formed, and the character being read. -/
structure Decoder where
  done : List Char := []
  sound : Bool := true
  pending : Option Partial := none

def Decoder.reject (d : Decoder) : Decoder :=
  ⟨replacement :: d.done, false, none⟩

/-- Read a byte where a character starts. -/
def Decoder.begin (d : Decoder) (b : UInt8) : Decoder :=
  match start b with
  | .whole c => { d with done := c :: d.done, pending := none }
  | .lead p => { d with pending := some p }
  | .invalid => d.reject

/-- Read one byte.  A byte that does not continue the pending character ends
it as ill formed and starts afresh. -/
def Decoder.push (d : Decoder) (b : UInt8) : Decoder :=
  match d.pending with
  | none => d.begin b
  | some p =>
    if p.lo ≤ b && b ≤ p.hi then
      let bits := p.bits * 0x40 + b.toNat % 0x40
      if p.more ≤ 1 then { d with done := Char.ofNat bits :: d.done, pending := none }
      else { d with pending := some ⟨p.more - 1, 0x80, 0xbf, bits⟩ }
    else d.reject.begin b

/-- End of input: a pending character is ill formed. -/
def Decoder.finish (d : Decoder) : Decoder :=
  match d.pending with
  | none => d
  | some _ => d.reject

def run (bytes : List UInt8) : Decoder :=
  (bytes.foldl Decoder.push {}).finish

/-- The characters of well-formed bytes, and `none` for any others. -/
def decode? (bytes : List UInt8) : Option (List Char) :=
  let d := run bytes
  if d.sound then some d.done.reverse else none

/-- The characters of any bytes, ill-formed sequences replaced. -/
def decodeLossy (bytes : List UInt8) : List Char :=
  (run bytes).done.reverse

def encodeChar (c : Char) : List UInt8 :=
  let v := c.toNat
  if v < 0x80 then [v.toUInt8]
  else if v < 0x800 then [(0xc0 + v / 0x40).toUInt8, (0x80 + v % 0x40).toUInt8]
  else if v < 0x10000 then
    [(0xe0 + v / 0x1000).toUInt8, (0x80 + v / 0x40 % 0x40).toUInt8, (0x80 + v % 0x40).toUInt8]
  else
    [(0xf0 + v / 0x40000).toUInt8, (0x80 + v / 0x1000 % 0x40).toUInt8,
      (0x80 + v / 0x40 % 0x40).toUInt8, (0x80 + v % 0x40).toUInt8]

def encode (cs : List Char) : List UInt8 :=
  cs.flatMap encodeChar

def size (cs : List Char) : Nat :=
  cs.foldr (fun c n => c.utf8Size + n) 0

end Lintmark.Text.Utf8
