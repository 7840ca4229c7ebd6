import Ravel.Text.Quoted
import Ravel.Text.Number
import Ravel.Verb.Basic

/-!
# Tokens

The words of an expression, with the place in the source where each starts.

Source: package `scan`: `Type`, `Token`, `Verbs`.
-/

namespace Ravel

/-- The kinds of tokens (`scan.Type`). A kind that no source gives is known by its number. -/
inductive TokenKind where
  | eof
  | error
  | number
  | vector
  | verb
  | leftParen
  | rightParen
  | other (code : Int)
  deriving DecidableEq, Repr

namespace TokenKind

/-- The kind with a number. -/
def ofCode (code : Int) : TokenKind :=
  if code = 0 then .eof
  else if code = 1 then .error
  else if code = 2 then .number
  else if code = 3 then .vector
  else if code = 4 then .verb
  else if code = 5 then .leftParen
  else if code = 6 then .rightParen
  else .other code

/-- The name of a kind. -/
def name : TokenKind → Text
  | .eof => Text.ofString "EOF"
  | .error => Text.ofString "Error"
  | .number => Text.ofString "Number"
  | .vector => Text.ofString "Vector"
  | .verb => Text.ofString "Verb"
  | .leftParen => Text.ofString "LeftParen"
  | .rightParen => Text.ofString "RightParen"
  | .other code => Text.ofString "Type(" ++ Text.ofInt code ++ Text.ofString ")"

end TokenKind

/-- A token: its kind, the offset of its first byte in the source, and its text (`scan.Token`). -/
structure Token where
  kind : TokenKind
  offset : Int
  text : Text
  deriving DecidableEq, Repr

namespace Token

/-- The token that stands for the end of the input at an offset. -/
def endAt (offset : Int) : Token := ⟨.eof, offset, Text.ofString "EOF"⟩

/-- A token as it is listed: its kind and its quoted text, of which at most ten characters are
shown if it is longer than ten bytes. -/
def describe (t : Token) : Text :=
  match t.kind with
  | .eof => Text.ofString "EOF"
  | .error => Text.ofString "error: " ++ t.text
  | kind =>
    if 10 < t.text.length then
      kind.name ++ Text.ofString ": " ++ t.text.quoteFirst 10 ++ Text.ofString "..."
    else kind.name ++ Text.ofString ": " ++ t.text.quote

/-- The line that lists a token as it is found. -/
def traceLine (t : Token) : Text :=
  (Text.ofInt t.offset ++ Text.ofString ": emit " ++ t.describe).line

/-- The blanks between tokens: space, tab, carriage return and line feed (`scan.isSpace`). -/
def isBlank (b : UInt8) : Bool := b == 32 || b == 9 || b == 13 || b == 10

/-- A byte that is the mark of a verb (`scan.Verbs`). -/
def isVerb (b : UInt8) : Bool := Verb.marks.contains b

end Token

end Ravel
