/-!
# Finite binary64 numbers

A finite double is a sign and a magnitude `mantissa * 2 ^ exponent`. Everything is done on whole
numbers: a quotient of two of them is rounded once, to the nearest double, halves to even.

* `Magnitude.ofRatio?`: the double nearest to a quotient, `none` above the largest one.
* `Magnitude.mul?`, `Magnitude.div?`: the rounded product and quotient of two doubles.
* `Double.ofDecimal?`: the double that a decimal significand and exponent stand for, computed with
  one product or quotient by a power of ten for every 308 powers.
-/

namespace StateEngine

/-- The magnitude of a finite double: `mantissa * 2 ^ exponent`. The mantissa is below `2 ^ 53`, and
below `2 ^ 52` only if the exponent is the least one, `-1074`. -/
structure Magnitude where
  mantissa : Nat
  exponent : Int
  deriving DecidableEq, Repr, Inhabited

/-- A finite double. Zero has two signs. -/
structure Double where
  negative : Bool
  magnitude : Magnitude
  deriving DecidableEq, Repr, Inhabited

/-- The whole number nearest to `n / d`; a half goes to the even neighbour. -/
def roundDiv (n d : Nat) : Nat :=
  let q := n / d
  let twice := 2 * (n % d)
  if twice < d then q else if d < twice then q + 1 else q + q % 2

namespace Magnitude

/-- The exponent of the smallest positive double. -/
def minExponent : Int := -1074

/-- The exponent of the largest finite double. -/
def maxExponent : Int := 971

def zero : Magnitude := ⟨0, minExponent⟩

def isZero (x : Magnitude) : Bool := x.mantissa == 0

/-- `n / (d * 2 ^ e)` as a numerator and a denominator. -/
def scaled (n d : Nat) (e : Int) : Nat × Nat :=
  if 0 ≤ e then (n, d * Nat.pow 2 e.toNat) else (n * Nat.pow 2 (-e).toNat, d)

/-- The exponent at which `n / d` has a 53-bit whole part, or the least exponent if that is more. -/
def exponentOf (n d : Nat) : Int :=
  let low : Int := (n.log2 : Int) - d.log2 - 53
  let (a, b) := scaled n d low
  max (if a / b < Nat.pow 2 53 then low else low + 1) minExponent

/-- The double nearest to `n / d`, halves to even; `none` if it would be infinite. -/
def ofRatio? (n d : Nat) : Option Magnitude :=
  if n = 0 then some zero else
  let e := exponentOf n d
  let (a, b) := scaled n d e
  let q := roundDiv a b
  let x : Magnitude := if q = Nat.pow 2 53 then ⟨Nat.pow 2 52, e + 1⟩ else ⟨q, e⟩
  if maxExponent < x.exponent then none else some x

/-- The numerator and the denominator of a magnitude. -/
def ratio (x : Magnitude) : Nat × Nat :=
  if 0 ≤ x.exponent then (x.mantissa * Nat.pow 2 x.exponent.toNat, 1)
  else (x.mantissa, Nat.pow 2 (-x.exponent).toNat)

/-- The double nearest to the product. -/
def mul? (x y : Magnitude) : Option Magnitude :=
  ofRatio? (x.ratio.1 * y.ratio.1) (x.ratio.2 * y.ratio.2)

/-- The double nearest to the quotient. -/
def div? (x y : Magnitude) : Option Magnitude :=
  ofRatio? (x.ratio.1 * y.ratio.2) (x.ratio.2 * y.ratio.1)

/-- The double nearest to `10 ^ k`. -/
def powerOfTen? (k : Nat) : Option Magnitude := ofRatio? (Nat.pow 10 k) 1

/-- The largest power of ten that is a finite double. -/
def maxPower : Nat := 308

/-- `x * 10 ^ e`, by one product or quotient with a power of ten, and before it one quotient by
`10 ^ 308` for every 308 powers too many. `none` if the result would be infinite. -/
def scaleByTen? (x : Magnitude) (e : Int) : Option Magnitude :=
  if 0 ≤ e then
    if x.isZero then some x
    else if (maxPower : Int) < e then none
    else (powerOfTen? e.toNat).bind x.mul?
  else if -(maxPower : Int) ≤ e then (powerOfTen? (-e).toNat).bind x.div?
  else if x.isZero then some x
  else ((powerOfTen? maxPower).bind x.div?).bind (scaleByTen? · (e + maxPower))
termination_by (-e).toNat
decreasing_by simp only [maxPower] at *; omega

end Magnitude

namespace Double

def isZero (x : Double) : Bool := x.magnitude.isZero

def zero (negative : Bool) : Double := ⟨negative, .zero⟩

/-- The double read from a decimal `significand * 10 ^ exponent`: the significand is rounded first,
then scaled. -/
def ofDecimal? (negative : Bool) (significand : Nat) (exponent : Int) : Option Double :=
  (Magnitude.ofRatio? significand 1).bind fun x =>
    (x.scaleByTen? exponent).map fun y => ⟨negative, y⟩

end Double

end StateEngine
