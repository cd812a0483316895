import GraphQLText.Number.Binary64

/-!
# Decimals of a word

A decimal is a significand that fits a word of 64 bits, times a power of ten.  Digits are
taken into the significand as long as it fits; whole digits beyond count towards the power
of ten, and digits of the fraction beyond are dropped.  `Decimal.toBinary64?` rounds the
significand to a binary64 number and then multiplies or divides it by the rounded power of
ten.  Each of these steps rounds to nearest, and together they may miss the number nearest
to the decimal by a unit or two in the last place.
-/

namespace GraphQLText

/-- The decimal `significand * 10 ^ scale`. -/
structure Decimal where
  significand : Nat
  scale : Int
deriving DecidableEq, Repr

namespace Decimal

/-- The value of a digit. -/
def digitValue (c : Char) : Nat := c.toNat - '0'.toNat

/-- The value of a list of digits. -/
def ofDigits (ds : List Char) : Nat := ds.foldl (fun n d => 10 * n + digitValue d) 0

/-- The greatest significand. -/
def maxSignificand : Nat := Nat.pow 2 64 - 1

/-- The significand with further digits up to the first that does not fit, and the digits
from there on. -/
def takeDigits (significand : Nat) : List Char → Nat × List Char
  | [] => (significand, [])
  | d :: ds =>
    let next := 10 * significand + digitValue d
    if next ≤ maxSignificand then takeDigits next ds else (significand, d :: ds)

/-- The decimal of the digits before the point. -/
def ofWhole (ds : List Char) : Decimal :=
  let (significand, rest) := takeDigits 0 ds
  ⟨significand, rest.length⟩

/-- The decimal with further digits after the point. -/
def addFraction (d : Decimal) (ds : List Char) : Decimal :=
  let (significand, rest) := takeDigits d.significand ds
  ⟨significand, d.scale - (ds.length - rest.length : Nat)⟩

/-! ## Rounding -/

/-- The exponent of the greatest power of ten that is a finite binary64 number. -/
def maxPower : Nat := 308

/-- The binary64 number nearest to a power of ten. -/
def powerOfTen? (n : Nat) : Option Binary64 := Binary64.ofNat? (Nat.pow 10 n)

/-- A number times a power of ten, unless it is out of range. -/
def raise? (x : Binary64) (n : Nat) : Option Binary64 :=
  if x.significand = 0 then some x
  else if n ≤ maxPower then (powerOfTen? n).bind x.times?
  else none

/-- A number over a power of ten, divided by the greatest one first as often as the power
exceeds it, until nothing is left. -/
def lower? (x : Binary64) (n : Nat) : Option Binary64 :=
  if x.significand = 0 then some x
  else if n ≤ maxPower then (powerOfTen? n).bind x.over?
  else ((powerOfTen? maxPower).bind x.over?).bind fun y => lower? y (n - maxPower)
termination_by n
decreasing_by
  simp only [maxPower] at *
  omega

/-- The binary64 number of a decimal, unless it is out of range. -/
def toBinary64? (d : Decimal) : Option Binary64 :=
  (Binary64.ofNat? d.significand).bind fun x =>
    if 0 ≤ d.scale then raise? x d.scale.toNat else lower? x (-d.scale).toNat

end Decimal

end GraphQLText
