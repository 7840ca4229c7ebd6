import Ravel.Text.Number

/-!
# Dates and times in documents

A plain scalar that is a date, or a date and a time of day, denotes a point in time and is
neither a number nor a string.
-/

namespace Ravel.Yaml.Timestamp

/-- Reads a number of one or two digits that is at most `most`. -/
def number? (most : Nat) (s : Text) : Option (Nat × Text) :=
  let digits := (s.take 2).takeWhile Text.isDigit
  let n := Text.digitsValue digits
  if digits.isEmpty || most < n then none else some (n, s.drop digits.length)

/-- The text after a byte that it has to start with. -/
def expect? (b : UInt8) : Text → Option Text
  | c :: s => if c = b then some s else none
  | [] => none

/-- A year with a twenty-ninth of February. -/
def isLeap (year : Nat) : Bool := year % 4 == 0 && (year % 100 != 0 || year % 400 == 0)

/-- The number of days of a month. -/
def daysIn (year month : Nat) : Nat :=
  if month = 2 then (if isLeap year then 29 else 28)
  else if month = 4 || month = 6 || month = 9 || month = 11 then 30
  else 31

/-- Reads a year of four digits, a month and a day with hyphens between them. -/
def date? (s : Text) : Option Text := do
  if (s.takeWhile Text.isDigit).length != 4 then none
  let year := Text.digitsValue (s.take 4)
  let (month, s) ← number? 12 (← expect? 45 (s.drop 4))
  let (day, s) ← number? 31 (← expect? 45 s)
  if month = 0 || day = 0 || daysIn year month < day then none else return s

/-- The text after a fraction of a second, if it starts with one. -/
def skipFraction : Text → Text
  | b :: d :: s =>
    if (b = 46 || b = 44) && Text.isDigit d then (d :: s).dropWhile Text.isDigit else b :: d :: s
  | s => s

/-- Reads hours, minutes and seconds with colons between them, and a fraction of a second. -/
def clock? (s : Text) : Option Text := do
  let (_, s) ← number? 23 s
  let (_, s) ← number? 59 (← expect? 58 s)
  let (_, s) ← number? 59 (← expect? 58 s)
  return skipFraction s

/-- A text that is a time zone: `Z`, or a sign and two digits each for hours and minutes. -/
def isZone : Text → Bool
  | [90] => true
  | [sign, a, b, 58, c, d] =>
    (sign == 43 || sign == 45) && [a, b, c, d].all Text.isDigit
      && Text.digitsValue [a, b] ≤ 24 && Text.digitsValue [c, d] ≤ 60
  | _ => false

/-- A text that is a date alone, a date and a time with a zone after the letter T, or a date and a
time without one after blanks. -/
def isTimestamp (s : Text) : Bool :=
  match date? s with
  | none => false
  | some [] => true
  | some (b :: s) =>
    if b = 84 || b = 116 then (clock? s).any isZone
    else if b = 32 then (clock? (s.dropWhile (· == 32))).any List.isEmpty
    else false

end Ravel.Yaml.Timestamp
