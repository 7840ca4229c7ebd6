import Ravel.Text.Printable

/-!
# Characters that take no place on a line

Every character is printable, a separator, or in the general category Other: control and format
characters, those for private use, and code points that no character is assigned to. A prompt
that holds one of the last kind cannot be shown.
-/

namespace Ravel

/-- The ranges of the separators, both ends included, in increasing order. -/
def separatorRanges : List (Nat × Nat) := [
    (0x20, 0x20), (0xa0, 0xa0), (0x1680, 0x1680), (0x2000, 0x200a), (0x2028, 0x2029),
    (0x202f, 0x202f), (0x205f, 0x205f), (0x3000, 0x3000)]

/-- A blank, or a character that parts lines or paragraphs. -/
def isSeparator (c : Char) : Bool :=
  separatorRanges.any fun r => r.1 ≤ c.toNat && c.toNat ≤ r.2

/-- A character that is neither printable nor a separator. -/
def isOther (c : Char) : Bool := !isPrintable c && !isSeparator c

end Ravel
