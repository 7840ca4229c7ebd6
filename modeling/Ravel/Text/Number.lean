import Ravel.Text.Basic

/-!
# Numbers as text

Decimal printing, and the two ways numbers are read: plain decimal integers with an optional sign
(elements, commands and the environment), and integer literals with a base mark and underscores
(command-line options). Both read 64-bit signed integers and refuse any other.

Source: `strconv.Atoi`, `strconv.ParseInt`.
-/

namespace Ravel.Text

/-- The decimal digits of a natural number. -/
def ofNat (n : Nat) : Text := (Nat.toDigits 10 n).map Char.toUInt8

/-- The decimal form of an integer, with a minus sign if it is negative. -/
def ofInt (n : Int) : Text :=
  if n < 0 then 45 :: ofNat n.natAbs else ofNat n.natAbs

/-- The decimal form of a 64-bit integer. -/
def ofInt64 (n : Int64) : Text := ofInt n.toInt

/-- Decimal forms with single blanks between them. -/
def ofInt64s (ns : List Int64) : Text := join [32] (ns.map ofInt64)

/-- Decimal forms with single blanks between them, in square brackets. -/
def bracketed (ns : List Int64) : Text := (91 :: ofInt64s ns) ++ [93]

/-- The value of a row of decimal digits. -/
def digitsValue (s : Text) : Nat := s.foldl (fun n b => n * 10 + (b.toNat - 48)) 0

/-- An integer as a 64-bit integer, if it is one. -/
def toInt64? (n : Int) : Option Int64 :=
  if -0x8000000000000000 ≤ n ∧ n < 0x8000000000000000 then some (Int64.ofInt n) else none

/-- Splits a leading sign off: whether it is a minus, and what follows it. -/
def signed : Text → Bool × Text
  | 43 :: s => (false, s)
  | 45 :: s => (true, s)
  | s => (false, s)

/-- Reads a decimal integer: an optional sign and at least one digit, nothing else. -/
def readInt64? (s : Text) : Option Int64 :=
  let (negative, digits) := signed s
  if digits.isEmpty || !digits.all isDigit then none
  else toInt64? (if negative then -(digitsValue digits : Int) else digitsValue digits)

/-- Why an integer literal is refused. -/
inductive LiteralError where
  | malformed
  | outOfRange
  deriving DecidableEq, Repr

/-- The base that a literal without its sign is written in, and its digits. -/
def literalBase : Text → Nat × Text
  | 48 :: m :: d :: s =>
    if lowerByte m = 98 then (2, d :: s)
    else if lowerByte m = 111 then (8, d :: s)
    else if lowerByte m = 120 then (16, d :: s)
    else (8, m :: d :: s)
  | 48 :: s => (8, s)
  | s => (10, s)

/-- The value of a letter or digit as a digit of any base. -/
def digitValue? (b : UInt8) : Option Nat :=
  let c := lowerByte b
  if isDigit c then some (c.toNat - 48)
  else if 97 ≤ c && c ≤ 122 then some (c.toNat - 87)
  else none

/-- Reads digits of a base, skipping underscores. It stops at the first byte that is no digit of
the base, or as soon as the value does not fit 64 bits. -/
def literalValue (base : Nat) : Nat → Text → Except LiteralError Nat
  | n, [] => .ok n
  | n, b :: s =>
    if b = 95 then literalValue base n s
    else match digitValue? b with
      | none => .error .malformed
      | some d =>
        if base ≤ d then .error .malformed
        else if 0x10000000000000000 ≤ n * base + d then .error .outOfRange
        else literalValue base (n * base + d) s

/-- Each underscore stands between two digits; the base mark counts as a digit. `after` says
whether a digit stands just before. -/
def underscoresLoop (hex : Bool) (after : Bool) : Text → Bool
  | [] => true
  | b :: s =>
    if b = 95 then
      after && (match s with
        | [] => false
        | d :: _ => isDigit d || (hex && (hexValue? d).isSome)) && underscoresLoop hex false s
    else underscoresLoop hex (isDigit b || (hex && (hexValue? b).isSome)) s

/-- The underscores of a literal without its sign are well placed. -/
def underscoresOk : Text → Bool
  | 48 :: m :: s =>
    if lowerByte m = 120 then underscoresLoop true true s
    else if lowerByte m = 98 || lowerByte m = 111 then underscoresLoop false true s
    else underscoresLoop false true (m :: s)
  | s => underscoresLoop false false s

/-- Reads an integer literal: an optional sign, then decimal digits, or digits after one of the
marks `0b`, `0o`, `0x` or `0` for base 2, 8, 16 or 8, with underscores between digits. -/
def readLiteral (s : Text) : Except LiteralError Int64 := do
  let (negative, unsigned) := signed s
  if unsigned.isEmpty then throw .malformed
  let (base, digits) := literalBase unsigned
  let n ← literalValue base 0 digits
  if digits.contains 95 && !underscoresOk unsigned then throw .malformed
  match toInt64? (if negative then -(n : Int) else n) with
  | some m => return m
  | none => throw .outOfRange

end Ravel.Text
