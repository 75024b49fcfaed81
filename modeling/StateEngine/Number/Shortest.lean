import StateEngine.Number.Double

/-!
# The shortest decimal of a double

The doubles nearest to a real number split the reals into intervals. `Magnitude.shortest` is the
decimal with the fewest digits in the interval of a double, and of those the one nearest to it, a
tie going to the even digit. `Double.text` lays its digits out.
-/

namespace StateEngine

/-- The decimal `digits * 10 ^ exponent`. -/
structure Decimal where
  digits : Nat
  exponent : Int
  deriving DecidableEq, Repr, Inhabited

namespace Magnitude

/-- `10 ^ k` in units of a quarter of the last place of `x`, as a numerator and a denominator. -/
def gridStep (x : Magnitude) (k : Int) : Nat × Nat :=
  let e := x.exponent - 2
  let tens : Nat × Nat := if 0 ≤ k then (Nat.pow 10 k.toNat, 1) else (1, Nat.pow 10 (-k).toNat)
  if 0 ≤ e then (tens.1, tens.2 * Nat.pow 2 e.toNat) else (tens.1 * Nat.pow 2 (-e).toNat, tens.2)

/-- The lower end of the interval of `x`, in quarters of its last place: half a place below, or a
quarter if the double below is twice as close. -/
def lowerEnd (x : Magnitude) : Nat :=
  if x.mantissa = Nat.pow 2 52 ∧ minExponent < x.exponent then 4 * x.mantissa - 1
  else 4 * x.mantissa - 2

/-- The upper end of the interval of `x`, in quarters of its last place. -/
def upperEnd (x : Magnitude) : Nat := 4 * x.mantissa + 2

/-- Whether `d * 10 ^ k` rounds to `x`. The ends belong to the even mantissa. -/
def readsBack (x : Magnitude) (d : Nat) (k : Int) : Bool :=
  let (a, b) := x.gridStep k
  if x.mantissa % 2 = 0 then x.lowerEnd * b ≤ d * a && d * a ≤ x.upperEnd * b
  else x.lowerEnd * b < d * a && d * a < x.upperEnd * b

/-- The multiple of `10 ^ k` that reads back as `x` and is nearest to it, if there is one. -/
def onGrid? (x : Magnitude) (k : Int) : Option Decimal :=
  let (a, b) := x.gridStep k
  let low := 4 * x.mantissa * b / a
  let twice := 2 * (4 * x.mantissa * b % a)
  let near := if twice < a then low else if a < twice then low + 1 else low + low % 2
  let far := if near = low then low + 1 else low
  if x.readsBack near k then some ⟨near, k⟩
  else if x.readsBack far k then some ⟨far, k⟩
  else none

/-- An exponent of ten above every digit of `x`. -/
def topExponent (x : Magnitude) : Int :=
  (((4 * x.mantissa).log2 : Int) + x.exponent) * 30103 / 100000 + 1

/-- The decimal with the fewest digits that reads back as `x`, and of those the nearest. Twenty
places below the top there always is one. -/
def shortest (x : Magnitude) : Decimal :=
  ((List.range 20).findSome? fun (i : Nat) => x.onGrid? (x.topExponent - i)).getD ⟨0, 0⟩

end Magnitude

/-- The characters `0`, `n` times. -/
def zeros (n : Nat) : String := "".pushn '0' n

namespace Decimal

/-- The exponent of the leading digit. -/
def leading (d : Decimal) : Int := (toString d.digits).length - 1 + d.exponent

/-- Positional notation, with a fraction. -/
def positional (d : Decimal) : String :=
  let digits := toString d.digits
  if 0 ≤ d.exponent then digits ++ zeros d.exponent.toNat ++ ".0"
  else
    let places := (-d.exponent).toNat
    if places < digits.length then
      String.ofList (digits.toList.take (digits.length - places)) ++ "." ++
        String.ofList (digits.toList.drop (digits.length - places))
    else "0." ++ zeros (places - digits.length) ++ digits

/-- Scientific notation: a point only if digits follow it, and a sign on every exponent. -/
def scientific (d : Decimal) : String :=
  let digits := (toString d.digits).toList
  let fraction := digits.drop 1
  let mantissa := digits.take 1 ++ (if fraction.isEmpty then [] else '.' :: fraction)
  let sign := if d.leading < 0 then "e-" else "e+"
  String.ofList mantissa ++ sign ++ toString d.leading.natAbs

/-- **Where positional notation ends**: it serves magnitudes from `10 ^ -5` up to `10 ^ 16`. -/
def text (d : Decimal) : String :=
  if -5 ≤ d.leading ∧ d.leading < 16 then d.positional else d.scientific

end Decimal

/-- The text of a double. Zero keeps its sign and has a fraction. -/
def Double.text (x : Double) : String :=
  (if x.negative then "-" else "") ++
    if x.isZero then "0.0" else x.magnitude.shortest.text

end StateEngine
