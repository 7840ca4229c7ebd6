import Ravel.Text.Number

/-!
# Durations as text

A duration in whole microseconds, with the largest unit in which its number is not a fraction
below one: `250µs`, `1.5ms`, `2.000001s`, `1m0s`, `1h0m0.5s`.

Source: `time.Duration.String`.
-/

namespace Ravel.Text

/-- Digits without the zeros at their end. -/
def dropZeros (digits : Text) : Text := (digits.reverse.dropWhile (· == 48)).reverse

/-- A number divided by ten to the power of `places`, without zeros after its last decimal. -/
def ofDecimal (places n : Nat) : Text :=
  let unit := Nat.pow 10 places
  let digits := ofNat (n % unit)
  let decimals := dropZeros (List.replicate (places - digits.length) 48 ++ digits)
  if decimals.isEmpty then ofNat (n / unit) else ofNat (n / unit) ++ 46 :: decimals

/-- A duration in microseconds. -/
def ofMicroseconds (n : Nat) : Text :=
  if n = 0 then ofString "0s"
  else if n < 1000 then ofNat n ++ ofString "µs"
  else if n < 1000000 then ofDecimal 3 n ++ ofString "ms"
  else
    let seconds := ofDecimal 6 (n % 60000000) ++ ofString "s"
    let minutes := n / 60000000
    if minutes = 0 then seconds
    else
      let seconds := ofNat (minutes % 60) ++ ofString "m" ++ seconds
      if minutes < 60 then seconds else ofNat (minutes / 60) ++ ofString "h" ++ seconds

end Ravel.Text
