import Ravel.Text.Glyph
import Ravel.Text.Printable

/-!
# Quoted texts

A text is quoted in double quotes on one line: printable characters stand for themselves, a quote
and a backslash follow a backslash, and any other character or stray byte is an escape. Reading
takes three forms: double quotes, single quotes around one character, and backquotes around a text
without escapes.

Source: `strconv.Quote`, `strconv.Unquote`.
-/

namespace Ravel.Text

/-- The lower-case hexadecimal digit of a value below 16. -/
def hexDigit (n : Nat) : UInt8 := if n < 10 then UInt8.ofNat (48 + n) else UInt8.ofNat (87 + n)

/-- The last `width` hexadecimal digits of a number. -/
def hexDigits : (width : Nat) → Nat → Text
  | 0, _ => []
  | width + 1, n => hexDigits width (n / 16) ++ [hexDigit (n % 16)]

/-- The letter that stands after a backslash for a control character, if it has one. -/
def escapeLetter? (c : Char) : Option UInt8 :=
  match c.toNat with
  | 7 => some 97
  | 8 => some 98
  | 12 => some 102
  | 10 => some 110
  | 13 => some 114
  | 9 => some 116
  | 11 => some 118
  | _ => none

/-- A glyph as it stands inside double quotes. -/
def quoteGlyph (printable : Char → Bool) : Glyph → Text
  | .byte b => 92 :: 120 :: hexDigits 2 b.toNat
  | .char c =>
    if c = '"' || c = '\\' then 92 :: ofChar c
    else if printable c then ofChar c
    else match escapeLetter? c with
      | some l => [92, l]
      | none =>
        let n := c.toNat
        if n < 32 || n == 127 then 92 :: 120 :: hexDigits 2 n
        else if n < 0x10000 then 92 :: 117 :: hexDigits 4 n
        else 92 :: 85 :: hexDigits 8 n

/-- Glyphs in double quotes. -/
def quoteGlyphs (printable : Char → Bool) (rs : List Glyph) : Text :=
  (34 :: rs.flatMap (quoteGlyph printable)) ++ [34]

/-- A text in double quotes, for a choice of the printable characters. -/
def quoteWith (printable : Char → Bool) (s : Text) : Text := quoteGlyphs printable s.glyphs

/-- A text in double quotes. -/
def quote (s : Text) : Text := quoteWith isPrintable s

/-- At most the first `n` glyphs of a text, in double quotes. -/
def quoteFirst (n : Nat) (s : Text) : Text := quoteGlyphs isPrintable (s.glyphs.take n)

/-- A code point as it is cited in messages: `U+0078 'x'`, without the character itself if it is
not printable. -/
def citeChar (c : Char) : Text :=
  let digits := (Nat.toDigits 16 c.toNat).map fun d => (d.toUpper).toUInt8
  let name : Text := ofString "U+" ++ List.replicate (4 - digits.length) 48 ++ digits
  if isPrintable c then name ++ ofString " '" ++ ofChar c ++ ofString "'" else name

/-- The bytes that an escape of hexadecimal digits denotes: one byte for two digits, else the
character of that number. -/
def hexEscape? (width : Nat) (s : Text) : Option Text :=
  if s.length < width then none
  else do
    let n ← hexNumber? (s.take width)
    if width = 2 then return [UInt8.ofNat n]
    else if n.isValidChar then return ofChar (Char.ofNat n)
    else none

/-- The byte that an escape of three octal digits denotes, given the first of them. -/
def octalEscape? (a : UInt8) : Text → Option Text
  | b :: c :: _ =>
    if 48 ≤ b && b ≤ 55 && 48 ≤ c && c ≤ 55 then
      let n := (a.toNat - 48) * 64 + (b.toNat - 48) * 8 + (c.toNat - 48)
      if n < 256 then some [UInt8.ofNat n] else none
    else none
  | _ => none

/-- What the escape denotes whose backslash is followed by `c` and `rest`, and how many bytes of
`rest` it takes. Only the kind of quote around the text may be escaped. -/
def escape? (mark c : UInt8) (rest : Text) : Option (Text × Nat) :=
  if c = 97 then some ([7], 0)
  else if c = 98 then some ([8], 0)
  else if c = 102 then some ([12], 0)
  else if c = 110 then some ([10], 0)
  else if c = 114 then some ([13], 0)
  else if c = 116 then some ([9], 0)
  else if c = 118 then some ([11], 0)
  else if c = 92 then some ([92], 0)
  else if c = mark then some ([mark], 0)
  else if c = 120 then (hexEscape? 2 rest).map (·, 2)
  else if c = 117 then (hexEscape? 4 rest).map (·, 4)
  else if c = 85 then (hexEscape? 8 rest).map (·, 8)
  else if 48 ≤ c && c ≤ 55 then (octalEscape? c rest).map (·, 2)
  else none

/-- What the quoted text denotes at a byte that does not end it, and how many of the following
bytes belong to it. A stray byte denotes the replacement character. -/
def quotedPiece? (mark b : UInt8) (rest : Text) : Option (Text × Nat) :=
  if b = 10 then none
  else if b = 92 then
    match rest with
    | [] => none
    | c :: rest => (escape? mark c rest).map fun p => (p.1, p.2 + 1)
  else
    let r := firstGlyph b rest
    some (ofChar r.shown, r.width - 1)

/-- Reads up to the closing mark: what was denoted, in reverse before it, and what follows the
mark. `skip` bytes belong to the last piece. -/
def unquoteLoop (mark : UInt8) (read : Text) : (skip : Nat) → Text → Option (Text × Text)
  | _, [] => none
  | skip + 1, _ :: rest => unquoteLoop mark read skip rest
  | 0, b :: rest =>
    if b = mark then some (read.reverse, rest)
    else match quotedPiece? mark b rest with
      | none => none
      | some (piece, used) => unquoteLoop mark (piece.reverse ++ read) used rest

/-- Reads one character in single quotes; nothing between the quotes denotes the empty text. -/
def unquoteSingle : Text → Option Text
  | [39] => some []
  | [] => none
  | b :: rest =>
    if b = 39 then none
    else match quotedPiece? 39 b rest with
      | none => none
      | some (piece, used) => if rest.drop used = [39] then some piece else none

/-- Reads a text in backquotes, whose carriage returns do not count. -/
def unquoteRaw (s : Text) : Option Text :=
  if (s.dropWhile (· != 96)) = [96] then some ((s.takeWhile (· != 96)).filter (· != 13)) else none

/-- The text that a quoted text denotes, if it is one and nothing stands around it. -/
def unquote? : Text → Option Text
  | 34 :: s =>
    match unquoteLoop 34 [] 0 s with
    | some (t, []) => some t
    | _ => none
  | 39 :: s => unquoteSingle s
  | 96 :: s => unquoteRaw s
  | _ => none

end Ravel.Text
