import StateEngine.Number.Shortest

/-!
# Numbers and how they are written

A number is an integer or a finite double. `Literal` is a number as it is written: a sign, whole
digits, and perhaps a fraction and an exponent. `Literal.value?` is what it stands for: an integer
if it has neither fraction nor exponent and fits in 64 bits, otherwise a double.
-/

namespace StateEngine

/-- An integer of at most 64 bits, with or without a sign, or a finite double. -/
inductive Number where
  | integer (value : Int)
  | double (value : Double)
  deriving DecidableEq, Repr, Inhabited

namespace Number

def isZero : Number → Bool
  | integer i => i == 0
  | double x => x.isZero

/-- Integers are written exactly, doubles with their shortest digits. -/
def text : Number → String
  | integer i => toString i
  | double x => x.text

end Number

/-- A number as it is written. -/
structure Literal where
  negative : Bool
  whole : List Nat
  fraction : Option (List Nat)
  /-- Whether the exponent is negative, and its digits. -/
  exponent : Option (Bool × List Nat)
  deriving DecidableEq, Repr

namespace Literal

/-- Significands stay below this bound. -/
def significandBound : Nat := Nat.pow 2 64

/-- Exponents stay below this bound. -/
def exponentBound : Nat := Nat.pow 2 31

/-- Append digits to a significand while it stays below the bound; the digits that are left. -/
def absorb (significand : Nat) : List Nat → Nat × List Nat
  | [] => (significand, [])
  | d :: ds =>
    if significand * 10 + d < significandBound then absorb (significand * 10 + d) ds
    else (significand, d :: ds)

def ofDigits (digits : List Nat) : Nat := digits.foldl (fun n d => n * 10 + d) 0

/-- The double of a significand, a decimal exponent and a written exponent. A written exponent out
of bounds gives zero, or no number at all if it would give an infinite one. -/
def scaled? (negative : Bool) (significand : Nat) (exponent : Int) :
    Option (Bool × List Nat) → Option Number
  | none => (Double.ofDecimal? negative significand exponent).map .double
  | some (down, digits) =>
    let e := ofDigits digits
    if e < exponentBound then
      (Double.ofDecimal? negative significand (if down then exponent - e else exponent + e)).map .double
    else if significand ≠ 0 && !down then none
    else some (.double (.zero negative))

/-- An integer with a sign, or the double nearest to it if it does not fit. Minus zero is a
double. -/
def signed? (negative : Bool) (significand : Nat) : Option Number :=
  if !negative then some (.integer significand)
  else if 0 < significand && significand ≤ Nat.pow 2 63 then some (.integer (-significand))
  else (Double.ofDecimal? true significand 0).map .double

/-- **What a literal stands for.** The significand takes as many digits as fit in 64 bits; whole
digits that do not fit raise the exponent, and fraction digits that do not fit are dropped. `none`
if the number is too large for a double. -/
def value? (l : Literal) : Option Number :=
  let (significand, excess) := absorb 0 l.whole
  match l.fraction with
  | none =>
    if excess.isEmpty && l.exponent.isNone then signed? l.negative significand
    else scaled? l.negative significand excess.length l.exponent
  | some digits =>
    let (significand, left) := absorb significand digits
    scaled? l.negative significand ((excess.length : Int) - (digits.length - left.length : Nat)) l.exponent

/-- The value of an ASCII digit. -/
def digit (c : Char) : Nat := c.toNat - '0'.toNat

/-- Split off the digits at the front. -/
def digits (s : List Char) : List Nat × List Char :=
  ((s.takeWhile Char.isDigit).map digit, s.dropWhile Char.isDigit)

/-- The whole part: a lone zero, or digits that do not start with zero. -/
def whole? (s : List Char) : Option (List Nat × List Char) :=
  match digits s with
  | ([], _) => none
  | (0 :: _ :: _, _) => none
  | (ds, rest) => some (ds, rest)

/-- A point and at least one digit, if a point is next. -/
def fraction? : List Char → Option (Option (List Nat) × List Char)
  | '.' :: s =>
    match digits s with
    | ([], _) => none
    | (ds, rest) => some (some ds, rest)
  | s => some (none, s)

/-- The sign of an exponent; true is minus. -/
def exponentSign : List Char → Bool × List Char
  | '-' :: s => (true, s)
  | '+' :: s => (false, s)
  | s => (false, s)

/-- An exponent mark, a sign and at least one digit, up to the end. -/
def exponent? : List Char → Option (Option (Bool × List Nat))
  | [] => some none
  | c :: s =>
    if c = 'e' ∨ c = 'E' then
      let (down, s) := exponentSign s
      match digits s with
      | ([], _) => none
      | (ds, []) => some (some (down, ds))
      | _ => none
    else none

/-- Read a literal that takes up all of the text. -/
def ofChars? (s : List Char) : Option Literal := do
  let (negative, s) := match s with
    | '-' :: s => (true, s)
    | s => (false, s)
  let (whole, s) ← whole? s
  let (fraction, s) ← fraction? s
  let exponent ← exponent? s
  some ⟨negative, whole, fraction, exponent⟩

end Literal

/-- The number that a text writes. -/
def Number.ofChars? (s : List Char) : Option Number := (Literal.ofChars? s).bind Literal.value?

end StateEngine
