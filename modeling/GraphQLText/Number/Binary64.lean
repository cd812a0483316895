/-!
# Binary floating point numbers

A finite binary64 number is kept exactly, as a sign, a natural significand and a power
of two.  `Binary64.ofFraction?` rounds a fraction to the nearest such number, a half going
to the even significand; natural numbers, products and quotients are rounded through it.
`Binary64.shortest` is the decimal with the fewest digits that rounds back to the number,
the nearest one where several have as few digits and the one with an even last digit where
two are equally near.  All are computed with natural numbers only, so none hides an
approximation.
-/

namespace GraphQLText

/-- The number `significand * 2 ^ exponent`, negated when `negative` holds. -/
structure Binary64 where
  negative : Bool
  significand : Nat
  exponent : Int
deriving DecidableEq, Repr

namespace Binary64

/-- The number of bits of a full significand. -/
def precision : Nat := 53

/-- The exponent of the smallest subnormal numbers. -/
def minExponent : Int := -1074

/-- The exponent of the largest finite numbers. -/
def maxExponent : Int := 971

/-- The fraction `num / den * base ^ e`, as a pair of a numerator and a denominator. -/
def scaled (base num den : Nat) (e : Int) : Nat × Nat :=
  if 0 ≤ e then (num * base.pow e.toNat, den) else (num, den * base.pow (-e).toNat)

/-- The integer nearest to `num / den`, a half going to the even neighbour. -/
def roundHalfEven (num den : Nat) : Nat :=
  let floor := num / den
  let rest := 2 * (num % den)
  if rest < den then floor
  else if den < rest then floor + 1
  else floor + floor % 2

/-- The exponent of the highest power of two that is at most `num / den`, for a positive
`num` and `den`. -/
def binaryOrder (num den : Nat) : Int :=
  let estimate : Int := (num.log2 : Int) - den.log2
  let (n, d) := scaled 2 num den (-estimate)
  if d ≤ n then estimate else estimate - 1

/-- The zero without a sign. -/
def zero : Binary64 := ⟨false, 0, minExponent⟩

/-- The binary64 number nearest to `num / den`, unless it is out of range. -/
def ofFraction? (num den : Nat) : Option Binary64 :=
  if num = 0 then some zero
  else
    let exponent := max minExponent (binaryOrder num den - (precision - 1 : Nat))
    let (n, d) := scaled 2 num den (-exponent)
    let significand := roundHalfEven n d
    let (significand, exponent) :=
      if significand = Nat.pow 2 precision then (Nat.pow 2 (precision - 1), exponent + 1)
      else (significand, exponent)
    if exponent ≤ maxExponent then some ⟨false, significand, exponent⟩ else none

/-- The binary64 number nearest to a natural number, unless it is out of range. -/
def ofNat? (n : Nat) : Option Binary64 := ofFraction? n 1

/-- The product of two magnitudes, rounded to the nearest number. -/
def times? (x y : Binary64) : Option Binary64 :=
  let (n, d) := scaled 2 (x.significand * y.significand) 1 (x.exponent + y.exponent)
  ofFraction? n d

/-- The quotient of two magnitudes, rounded to the nearest number. -/
def over? (x y : Binary64) : Option Binary64 :=
  let (n, d) := scaled 2 x.significand y.significand (x.exponent - y.exponent)
  ofFraction? n d

/-- Whether the decimal `digits * 10 ^ scale` lies among the reals that round to the
magnitude of `x`.  The bounds are halfway to the neighbours of `x`, and they belong to
the interval when the significand is even; the lower neighbour of a power of two is only
half as far away. -/
def admits (x : Binary64) (digits : Nat) (scale : Int) : Bool :=
  let isPowerOfTwo := x.significand = Nat.pow 2 (precision - 1) ∧ minExponent < x.exponent
  let low := 4 * x.significand - (if isPowerOfTwo then 1 else 2)
  let high := 4 * x.significand + 2
  let (n, d) := scaled 10 digits 1 scale
  let (n, d) := scaled 2 n d (2 - x.exponent)
  if x.significand % 2 = 0 then low * d ≤ n ∧ n ≤ high * d else low * d < n ∧ n < high * d

/-- The multiple of `10 ^ scale` that is nearest to the magnitude of `x` among those that
round to it. -/
def onGrid? (x : Binary64) (scale : Int) : Option (Nat × Int) :=
  let (n, d) := scaled 2 x.significand 1 x.exponent
  let (n, d) := scaled 10 n d (-scale)
  let nearest := roundHalfEven n d
  if x.admits nearest scale then some (nearest, scale)
  else
    [n / d, n / d + 1].find? (fun digits => x.admits digits scale)
      |>.map fun digits => (digits, scale)

/-- A power of ten, as an exponent, above the magnitude of `x`. -/
def decimalBound (x : Binary64) : Int :=
  ((x.significand.log2 : Int) + 1 + x.exponent) * 30103 / 100000 + 1

/-- The magnitude of `x` as an exact decimal. -/
def exactDecimal (x : Binary64) : Nat × Int :=
  if 0 ≤ x.exponent then (x.significand * Nat.pow 2 x.exponent.toNat, 0)
  else (x.significand * Nat.pow 5 (-x.exponent).toNat, x.exponent)

/-- The digits and the power of ten of the shortest decimal that rounds to the magnitude
of `x`: the one on the coarsest grid `10 ^ scale` that holds any.  Seventeen digits always
suffice, so twenty grids are enough. -/
def shortest (x : Binary64) : Nat × Int :=
  ((List.range 20).findSome? fun n : Nat => x.onGrid? (x.decimalBound - n)).getD x.exactDecimal

end Binary64

end GraphQLText
