import Ravel.Text.Glyph

/-!
# Places in documents of nested nodes

A document is read character by character. A cursor is a place in it, with the line and the
column by which nodes are told apart.
-/

namespace Ravel.Yaml

/-- A place in a document: the characters from there on, the number of its line and its column. -/
structure Cursor where
  rest : List Char
  line : Nat
  column : Nat
  deriving Repr

/-- A blank or a tab. -/
def isBlank (c : Char) : Bool := c == ' ' || c == '\t'

/-- A character that ends a line. -/
def isBreak (c : Char) : Bool := c == '\n' || c == '\u2028' || c == '\u2029'

/-- Characters that start with a blank or a line end, or have ended. -/
def startsBlank : List Char → Bool
  | [] => true
  | c :: _ => isBlank c || isBreak c

/-- The characters of a document, in which a carriage return, with or without a line feed, and a
next-line character are line feeds. -/
def unixLines : List Char → List Char
  | [] => []
  | '\r' :: '\n' :: rest => '\n' :: unixLines rest
  | c :: rest => (if c == '\r' || c == '\u0085' then '\n' else c) :: unixLines rest

namespace Cursor

/-- The start of a document. -/
def start (document : List Char) : Cursor := ⟨document, 1, 0⟩

/-- The place after the next character. -/
def next (c : Cursor) : Cursor :=
  match c.rest with
  | [] => c
  | x :: rest => if isBreak x then ⟨rest, c.line + 1, 0⟩ else ⟨rest, c.line, c.column + 1⟩

/-- The place some characters further on. -/
def skip : Nat → Cursor → Cursor
  | 0, c => c
  | n + 1, c => skip n c.next

/-- The place after the characters there that satisfy a condition. -/
def skipWhile (p : Char → Bool) (c : Cursor) : Cursor := c.skip (c.rest.takeWhile p).length

/-- The character at a place is a given one. -/
def isAt (c : Cursor) (x : Char) : Bool := c.rest.head? == some x

/-- The place at the end of the line. -/
def toLineEnd (c : Cursor) : Cursor := c.skipWhile (!isBreak ·)

/-- A line of three hyphens or three points, which divides documents. -/
def isAtDivider (c : Cursor) : Bool :=
  c.column == 0
    && (match c.rest with
      | '-' :: '-' :: '-' :: rest => startsBlank rest
      | '.' :: '.' :: '.' :: rest => startsBlank rest
      | _ => false)

/-- The end of a comment that starts at a place, and of the comments after it that only blanks
and line ends keep apart. -/
def commentsEnd : (fuel : Nat) → Cursor → Cursor
  | 0, c => c
  | fuel + 1, c =>
    let c := c.toLineEnd
    let ahead := c.skipWhile fun x => isBlank x || x == '\n'
    if ahead.isAt '#' then commentsEnd fuel ahead else c

end Cursor

end Ravel.Yaml
