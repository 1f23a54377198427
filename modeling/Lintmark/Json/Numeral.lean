/-
Numbers.  Digits are taken into 64 bits as long as they fit; of the digits that
do not, those before the point raise the exponent and those behind it are
dropped.
-/
import Lintmark.Json.Lexer

namespace Lintmark.Json

/-- The digits in front, and what follows them. -/
def spanDigits (cs : List Char) : List Char × List Char :=
  (cs.takeWhile isDigit, cs.dropWhile isDigit)

/-- Take digits into a number while it stays below 2^64: the number, and how
many digits it took. -/
def takeDigits (n : Nat) : List Char → Nat × Nat
  | [] => (n, 0)
  | d :: ds =>
    let next := n * 10 + digitValue d
    if next < Nat.pow 2 64 then
      let (m, k) := takeDigits next ds
      (m, k + 1)
    else (n, 0)

/-- The exponent that the digits write, or the digits behind the first one that
takes it past 2^31 - 1. -/
def exponentValue (n : Nat) : List Char → Except (List Char) Nat
  | [] => .ok n
  | d :: ds =>
    let next := n * 10 + digitValue d
    if next < Nat.pow 2 31 then exponentValue next ds else .error ds

/-- The floating-point number `digits · 10^exponent`, out of range if it is not
finite. -/
def floating (minus : Bool) (digits : Nat) (exponent : Int) (rest : List Char) : Read Number :=
  match Decimal.scale digits exponent with
  | some a => .ok (.float minus a, rest)
  | none => failBehind .numberOutOfRange rest

/-- Read the exponent behind its letter. -/
def exponentPart (minus : Bool) (digits : Nat) (start : Int) (cs : List Char) : Read Number :=
  let (down, cs) := match cs with
    | '+' :: rest => (false, rest)
    | '-' :: rest => (true, rest)
    | _ => (false, cs)
  match spanDigits cs with
  | ([], []) => failBehind .eofInValue []
  | ([], rest) => failOn .invalidNumber rest
  | (ds, rest) =>
    match exponentValue 0 ds with
    | .ok e => floating minus digits (if down then start - e else start + e) rest
    | .error left =>
      if digits ≠ 0 && !down then failBehind .numberOutOfRange (left ++ rest)
      else .ok (.float minus ⟨0⟩, rest)

/-- Read what may follow the digits of a floating-point number. -/
def scientific (minus : Bool) (digits : Nat) (exponent : Int) (cs : List Char) : Read Number :=
  match cs with
  | 'e' :: rest => exponentPart minus digits exponent rest
  | 'E' :: rest => exponentPart minus digits exponent rest
  | _ => floating minus digits exponent cs

/-- Read the digits behind the point. -/
def fractionPart (minus : Bool) (digits : Nat) (exponent : Int) (cs : List Char) : Read Number :=
  match spanDigits cs with
  | ([], []) => failOn .eofInValue []
  | ([], rest) => failOn .invalidNumber rest
  | (ds, rest) =>
    let (n, taken) := takeDigits digits ds
    scientific minus n (exponent - taken) rest

/-- A whole number; zero with a sign, and anything below -2^63, is floating
point. -/
def whole (minus : Bool) (n : Nat) : Number :=
  if !minus then .natural n
  else if n = 0 || n > Nat.pow 2 63 then .float true (.ofNat n)
  else .negative n

/-- Read a number, its sign already read. -/
def numberFrom (minus : Bool) (cs : List Char) : Read Number :=
  match spanDigits cs with
  | ([], []) => failBehind .eofInValue []
  | ([], rest) => failOn .invalidNumber rest
  | ('0' :: more :: ds, rest) => failOn .invalidNumber (more :: ds ++ rest)
  | (ds, rest) =>
    let (n, taken) := takeDigits 0 ds
    let dropped : Int := (ds.length - taken : Nat)
    match rest with
    | '.' :: rest => fractionPart minus n dropped rest
    | 'e' :: rest => exponentPart minus n dropped rest
    | 'E' :: rest => exponentPart minus n dropped rest
    | _ => if dropped = 0 then .ok (whole minus n, rest) else floating minus n dropped rest

def number : List Char → Read Number
  | '-' :: cs => numberFrom true cs
  | cs => numberFrom false cs

/-- Skip the exponent behind its letter. -/
def skipExponent (cs : List Char) : Read Unit :=
  let cs := match cs with
    | '+' :: rest => rest
    | '-' :: rest => rest
    | _ => cs
  match spanDigits cs with
  | ([], rest) => failOn .invalidNumber rest
  | (_, rest) => .ok ((), rest)

/-- Skip what may follow the digits before the exponent. -/
def skipScientific : List Char → Read Unit
  | 'e' :: rest => skipExponent rest
  | 'E' :: rest => skipExponent rest
  | cs => .ok ((), cs)

/-- Skip a number, its sign already read.  Nothing is said about its size. -/
def skipNumberFrom (cs : List Char) : Read Unit :=
  match spanDigits cs with
  | ([], rest) => failOn .invalidNumber rest
  | ('0' :: more :: ds, rest) => failOn .invalidNumber (more :: ds ++ rest)
  | (_, '.' :: rest) =>
    match spanDigits rest with
    | ([], rest) => failOn .invalidNumber rest
    | (_, rest) => skipScientific rest
  | (_, rest) => skipScientific rest

def skipNumber : List Char → Read Unit
  | '-' :: cs => skipNumberFrom cs
  | cs => skipNumberFrom cs

end Lintmark.Json
