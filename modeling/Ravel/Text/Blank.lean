import Ravel.Text.Glyph

/-!
# Blanks in texts

White space in the sense of Unicode, which lines, commands and literals are trimmed and split at.
The tokens of an expression know fewer blanks (`Ravel.Token.isBlank`).

Source: `unicode.IsSpace`, `strings.TrimSpace`, `strings.Fields`.
-/

namespace Ravel

/-- The characters with the property White_Space. -/
def isSpace (c : Char) : Bool :=
  let n := c.toNat
  (9 ≤ n && n ≤ 13) || n == 0x20 || n == 0x85 || n == 0xa0 || n == 0x1680
    || (0x2000 ≤ n && n ≤ 0x200a) || n == 0x2028 || n == 0x2029 || n == 0x202f
    || n == 0x205f || n == 0x3000

/-- A glyph that is white space; a stray byte never is. -/
def Glyph.isSpace : Glyph → Bool
  | .char c => Ravel.isSpace c
  | .byte _ => false

namespace Text

/-- A row without the members at its end that satisfy a condition. -/
def dropWhileEnd {α : Type} (p : α → Bool) (s : List α) : List α :=
  (s.reverse.dropWhile p).reverse

/-- The text without the white space at its two ends. -/
def trim (s : Text) : Text :=
  ofGlyphs (dropWhileEnd Glyph.isSpace (s.glyphs.dropWhile Glyph.isSpace))

/-- The pieces of a text between white space, none of them empty. -/
def words (s : Text) : List Text :=
  ((s.glyphs.splitOnP Glyph.isSpace).filter (!·.isEmpty)).map ofGlyphs

end Text

end Ravel
