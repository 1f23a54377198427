/-
Binary floating point with 53 bits of precision, in exact natural arithmetic.
Every finite magnitude is a whole number of units of 2^-1074, and a value that
is no such number becomes the nearest one, ties to even.
-/
namespace Lintmark.Decimal

/-- A finite magnitude, counted in units of 2^-1074. -/
structure Binary where
  units : Nat
deriving Repr, DecidableEq

namespace Binary

/-- Units in the number one. -/
def one : Nat := Nat.pow 2 1074

/-- Units from which on a magnitude is no longer finite. -/
def limit : Nat := Nat.pow 2 2098

/-- The whole number nearest to a quotient, a half going to the even side. -/
def roundDiv (num den : Nat) : Nat :=
  let q := num / den
  let r := num % den
  if 2 * r > den then q + 1
  else if 2 * r = den then q + q % 2
  else q

/-- The magnitude nearest to a quotient of units.  Below 2^53 every number of
units is a magnitude; above, the last bits are zero. -/
def nearest (num den : Nat) : Binary :=
  let q := num / den
  if q < Nat.pow 2 53 then ⟨roundDiv num den⟩
  else
    let shift := q.log2 - 52
    ⟨roundDiv num (den * Nat.pow 2 shift) * Nat.pow 2 shift⟩

def ofNat (n : Nat) : Binary :=
  nearest (n * one) 1

def pow10 (k : Nat) : Binary :=
  ofNat (Nat.pow 10 k)

def mul (a b : Binary) : Binary :=
  nearest (a.units * b.units) one

def div (a b : Binary) : Binary :=
  nearest (a.units * one) b.units

def isInfinite (a : Binary) : Bool :=
  a.units ≥ limit

end Binary

/-- Divide by a power of ten in steps of at most 10^308, each step rounded. -/
def scaleDown (a : Binary) (k : Nat) : Binary :=
  if a.units = 0 then a
  else if k ≤ 308 then a.div (.pow10 k)
  else scaleDown (a.div (.pow10 308)) (k - 308)
termination_by k

/-- The number `digits · 10^exponent` of a decimal literal: the digits are
rounded first and scaled by one rounded power of ten.  `none` when the result
is not finite. -/
def scale (digits : Nat) (exponent : Int) : Option Binary :=
  let a := Binary.ofNat digits
  match exponent with
  | .negSucc k => some (scaleDown a (k + 1))
  | .ofNat k =>
    if a.units = 0 then some a
    else if k ≤ 308 then
      let p := a.mul (.pow10 k)
      if p.isInfinite then none else some p
    else none

end Lintmark.Decimal
