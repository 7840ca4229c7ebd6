import Ravel.Text.Number

/-!
# Decimal fractions

Numbers with a decimal point or an exponent, as they may stand in settings files, and the
integer part of the binary number of 53 bits that is nearest to one.
-/

namespace Ravel

/-- A decimal fraction: its sign, its digits as a number, and the power of ten to multiply by. -/
structure Decimal where
  negative : Bool
  digits : Nat
  exponent : Int
  deriving DecidableEq, Repr

namespace Decimal

/-- Reads the exponent after the digits, if any. -/
def readExponent? : Text → Option Int
  | [] => some 0
  | e :: s =>
    let (negative, digits) := Text.signed s
    if (e = 101 || e = 69) && !digits.isEmpty && digits.all Text.isDigit then
      let n := Text.digitsValue digits
      some (if negative then -(n : Int) else n)
    else none

/-- Reads a decimal: an optional sign, digits with at most one point among them, and an optional
exponent. -/
def read? (s : Text) : Option Decimal := do
  let (negative, s) := Text.signed s
  let whole := s.takeWhile Text.isDigit
  let s := s.dropWhile Text.isDigit
  let (fraction, s) :=
    match s with
    | 46 :: s => (s.takeWhile Text.isDigit, s.dropWhile Text.isDigit)
    | s => ([], s)
  if whole.isEmpty && fraction.isEmpty then none
  else
    let exponent ← readExponent? s
    return ⟨negative, Text.digitsValue (whole ++ fraction), exponent - fraction.length⟩

/-- The number of digits before the decimal point, as far as powers of ten are concerned. -/
def magnitude (d : Decimal) : Int := (Nat.toDigits 10 d.digits).length + d.exponent

/-- The absolute value as a quotient of natural numbers. -/
def quotient (d : Decimal) : Nat × Nat :=
  if d.digits = 0 || d.magnitude < -400 then (0, 1)
  else if 0 ≤ d.exponent then (d.digits * Nat.pow 10 d.exponent.toNat, 1)
  else (d.digits, Nat.pow 10 (-d.exponent).toNat)

/-- The absolute value lies beyond the numbers of double precision. -/
def overflows (d : Decimal) : Bool :=
  if d.digits = 0 then false
  else if 400 < d.magnitude then true
  else
    let (num, den) := d.quotient
    (1 <<< 1024 - 1 <<< 970) * den ≤ num

/-- A quotient rounded to the nearest integer, a half to the even one. -/
def roundHalfEven (num den : Nat) : Nat :=
  let q := num / den
  let r := num % den
  if den < 2 * r || (2 * r = den && q % 2 = 1) then q + 1 else q

/-- A positive quotient divided by a power of two, as a quotient. -/
def scaled (num den : Nat) (power : Int) : Nat × Nat :=
  if 0 ≤ power then (num, den <<< power.toNat) else (num <<< (-power).toNat, den)

/-- The integer part of the binary number of 53 bits nearest to a quotient. -/
def nearestWhole (num den : Nat) : Nat :=
  if num = 0 then 0
  else
    let power : Int := (num.log2 : Int) - den.log2 - 53
    let (n, d) := scaled num den power
    let power := if 1 <<< 53 ≤ n / d then power + 1 else power
    let (n, d) := scaled num den power
    let m := roundHalfEven n d
    if 0 ≤ power then m <<< power.toNat else m >>> (-power).toNat

/-- The integer part of a decimal after it is rounded to double precision. -/
def truncate (d : Decimal) : Int :=
  let (num, den) := d.quotient
  let n : Int := nearestWhole num den
  if d.negative then -n else n

end Decimal

end Ravel
