/-!
# Texts

A text is the sequence of its bytes. Sources, prompts and file contents come from outside, so a
text need not be valid UTF-8; `Ravel.Text.Glyph` reads the characters in one.
-/

namespace Ravel

/-- A text: its bytes in order. -/
abbrev Text := List UInt8

namespace Text

/-- The UTF-8 bytes of a string. -/
def ofString (s : String) : Text := s.toUTF8.data.toList

/-- A string stands for its UTF-8 bytes. -/
instance : Coe String Text := ⟨ofString⟩

/-- The UTF-8 bytes of one character. -/
def ofChar (c : Char) : Text := String.utf8EncodeChar c

/-- The character that a byte numbers, as a text: bytes from 128 on take two bytes. -/
def ofByte (b : UInt8) : Text := ofChar (Char.ofNat b.toNat)

/-- The parts in order with a separator between each two. -/
def join (separator : Text) (parts : List Text) : Text := separator.intercalate parts

/-- A text repeated a number of times. -/
def times (n : Nat) (s : Text) : Text := (List.replicate n s).flatten

/-- The line feed that ends a line. -/
def newline : Text := [10]

/-- A text with a line feed after it. -/
def line (s : Text) : Text := s ++ newline

/-- The text without its last byte if that byte is the given one. -/
def dropLastIf (b : UInt8) (s : Text) : Text :=
  if s.getLast? = some b then s.dropLast else s

/-- The text with what follows a leading part, if it starts with that part. -/
def after? (start s : Text) : Option Text :=
  if start.isPrefixOf s then some (s.drop start.length) else none

/-- The pieces of a text between the occurrences of a byte; there is always at least one. -/
def splitOn (b : UInt8) (s : Text) : List Text := s.splitOnP (· == b)

/-- The lower-case form of an ASCII letter; any other byte is unchanged. -/
def lowerByte (b : UInt8) : UInt8 := if 65 ≤ b && b ≤ 90 then b + 32 else b

/-- A byte that is one of the decimal digits. -/
def isDigit (b : UInt8) : Bool := 48 ≤ b && b ≤ 57

/-- The value of a hexadecimal digit, of either case. -/
def hexValue? (b : UInt8) : Option Nat :=
  if isDigit b then some (b.toNat - 48)
  else if 97 ≤ b && b ≤ 102 then some (b.toNat - 87)
  else if 65 ≤ b && b ≤ 70 then some (b.toNat - 55)
  else none

/-- The value of a row of hexadecimal digits, if all are digits. -/
def hexNumber? (s : Text) : Option Nat :=
  s.foldl (fun n b => do return (← n) * 16 + (← hexValue? b)) (some 0)

end Text

end Ravel
