/-
The fewest decimal digits that read back as a given binary magnitude, and the
text written with them.
-/
import Lintmark.Decimal.Binary

namespace Lintmark.Decimal

/-- The decimal number `0.d₁d₂… · 10^point`. -/
structure Digits where
  digits : List Char
  point : Int
deriving Repr, DecidableEq

/-- The point of a magnitude: the least `p` with the magnitude below `10^p`. -/
def pointOf (a : Binary) : Int :=
  let whole := a.units / Binary.one
  if whole = 0 then
    -(((List.range 324).takeWhile fun j => a.units * Nat.pow 10 (j + 1) < Binary.one).length : Int)
  else (Nat.toDigits 10 whole).length

/-- The units of `d · 10^e` as a quotient. -/
def gridPoint (d : Nat) : Int → Nat × Nat
  | .ofNat e => (d * Nat.pow 10 e * Binary.one, 1)
  | .negSucc e => (d * Binary.one, Nat.pow 10 (e + 1))

/-- The grid number `d · 10^e` reads back as the magnitude. -/
def readsBack (a : Binary) (d : Nat) (e : Int) : Bool :=
  let (num, den) := gridPoint d e
  Binary.nearest num den == a

/-- The neighbours of a magnitude among the multiples of `10^e`: the number
below and whether the magnitude lies nearer to the one above, a tie going to
the even number. -/
def floorOnGrid (a : Binary) (e : Int) : Nat × Bool :=
  let (num, den) := gridPoint 1 e
  let q := a.units * den / num
  let r := a.units * den % num
  (q, 2 * r > num || (2 * r == num && q % 2 == 1))

/-- The best number with `n` digits, if one reads back. -/
def onGrid? (a : Binary) (n : Nat) : Option Nat :=
  let e := pointOf a - n
  let (below, nearerAbove) := floorOnGrid a e
  match readsBack a below e, readsBack a (below + 1) e with
  | true, true => some (if nearerAbove then below + 1 else below)
  | true, false => some below
  | false, true => some (below + 1)
  | false, false => none

def stripZeros (cs : List Char) : List Char :=
  (cs.reverse.dropWhile (· == '0')).reverse

/-- The fewest digits that read back as a positive magnitude, and of those the
nearest.  Seventeen digits always read back. -/
def shortest (a : Binary) : Digits :=
  let n := ((List.range 17).find? fun k => (onGrid? a (k + 1)).isSome).getD 16 + 1
  let d := (onGrid? a n).getD 0
  let text := Nat.toDigits 10 d
  ⟨stripZeros text, pointOf a + (text.length - n : Int)⟩

/-- Write digits: positional from 10^-5 up to below 10^16, with at least one
digit on each side of the point, and with a signed exponent elsewhere. -/
def Digits.layout (d : Digits) : List Char :=
  let n := d.digits.length
  if d.point < -4 || d.point > 16 then
    let e := d.point - 1
    let sign := if e < 0 then '-' else '+'
    let fraction := match d.digits.drop 1 with
      | [] => []
      | ds => '.' :: ds
    d.digits.take 1 ++ fraction ++ ['e', sign] ++ Nat.toDigits 10 e.natAbs
  else if d.point ≤ 0 then
    ['0', '.'] ++ List.replicate d.point.natAbs '0' ++ d.digits
  else
    let p := d.point.toNat
    if n ≤ p then d.digits ++ List.replicate (p - n) '0' ++ ['.', '0']
    else d.digits.take p ++ ['.'] ++ d.digits.drop p

def text (negative : Bool) (a : Binary) : String :=
  let magnitude := if a.units = 0 then ['0', '.', '0'] else (shortest a).layout
  String.ofList (if negative then '-' :: magnitude else magnitude)

end Lintmark.Decimal
