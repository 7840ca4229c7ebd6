import Ravel.Text.Blank
import Ravel.Token.Scanner

/-!
# From a source to its tokens

Scanning looks at each place of the source that is not inside a token for the lexeme that starts
there. Numbers that only blanks separate are one lexeme, a vector. The first place that starts no
lexeme ends the scan with an error. A scanner gives the same tokens one at a time (`stream`).

Source: package `scan`: `Tokenize`, `Scanner.Next`, `Scanner.Err`.
-/

namespace Ravel

namespace Token

/-- The longest row of digit groups with blanks between them that a text starts with. -/
def numberRun (s : Text) : Text :=
  Text.dropWhileEnd isBlank (s.takeWhile fun b => Text.isDigit b || isBlank b)

/-- Splits a number run into digit groups, each with the number of bytes before it. `found` and
the digits `current` of the group before `position` are in reverse. -/
def groupsLoop (found : List (Nat × Text)) (current : Text) (position : Nat) :
    Text → List (Nat × Text)
  | [] =>
    (if current.isEmpty then found
      else (position - current.length, current.reverse) :: found).reverse
  | b :: rest =>
    if Text.isDigit b then groupsLoop found (b :: current) (position + 1) rest
    else if current.isEmpty then groupsLoop found [] (position + 1) rest
    else
      groupsLoop ((position - current.length, current.reverse) :: found) [] (position + 1) rest

/-- The digit groups of a number run, each with the number of bytes before it. -/
def digitGroups (run : Text) : List (Nat × Text) := groupsLoop [] [] 0 run

/-- A digit group beyond the 64-bit integers. -/
def isOversize (group : Text) : Bool := 0x8000000000000000 ≤ Text.digitsValue group

/-- What a place of the source starts. -/
inductive Lexeme where
  /-- A blank, which belongs to no token. -/
  | blank
  /-- A token with its kind and text. -/
  | token (kind : TokenKind) (text : Text)
  /-- An error that lies `skip` bytes further on. -/
  | bad (kind : ScanError.Kind) (skip : Nat) (text : Text)
  deriving DecidableEq, Repr

/-- The lexeme of a number run: a number if it is one group, else a vector, unless one of its
groups is oversize. -/
def numberLexeme (run : Text) : Lexeme :=
  let groups := digitGroups run
  match groups.find? fun g => isOversize g.2 with
  | some (skip, group) => .bad .invalidNumber skip group
  | none => .token (if 1 < groups.length then .vector else .number) run

/-- The lexeme that starts at a byte which others follow. -/
def lexeme (b : UInt8) (rest : Text) : Lexeme :=
  if isBlank b then .blank
  else if Text.isDigit b then numberLexeme (numberRun (b :: rest))
  else if isVerb b then .token .verb [b]
  else if b = 40 then .token .leftParen [b]
  else if b = 41 then .token .rightParen [b]
  else .bad .unrecognizedCharacter 0 (Text.firstGlyph b rest).encode

/-- The result of a scan: the tokens found, and the error that ended it, if any. -/
structure Scan where
  tokens : List Token
  error : Option ScanError
  deriving DecidableEq, Repr

/-- Scans on from an offset after the tokens `found`, in reverse; `skip` bytes still belong to
the last of them. -/
def scanLoop (found : List Token) : (offset skip : Nat) → Text → Scan
  | _, _, [] => ⟨found.reverse, none⟩
  | offset, skip + 1, _ :: rest => scanLoop found (offset + 1) skip rest
  | offset, 0, b :: rest =>
    match lexeme b rest with
    | .blank => scanLoop found (offset + 1) 0 rest
    | .token kind text =>
      scanLoop (⟨kind, offset, text⟩ :: found) (offset + 1) (text.length - 1) rest
    | .bad kind skip text => ⟨found.reverse, some ⟨kind, offset + skip, text⟩⟩

/-- Scans a source. -/
def scan (source : Text) : Scan := scanLoop [] 0 0 source

/-- The tokens of a source, or the error that it has no tokens for (`scan.Tokenize`). -/
def tokenize (source : Text) : Except ScanError (List Token) :=
  match scan source with
  | ⟨tokens, none⟩ => .ok tokens
  | ⟨_, some e⟩ => .error e

/-- The offset just past the last of some tokens, 0 if there is none; it wraps at 64 bits. -/
def endOffset (tokens : List Token) : Int :=
  match tokens.getLast? with
  | some t => (Int64.ofInt (t.offset + t.text.length)).toInt
  | none => 0

/-- The token that the `n`th request to the scanner of a source gives, counting from 0
(`Scanner.Next`). -/
def stream (source : Text) (n : Nat) : Token := ((Scanner.ofSource source).after (n + 1)).token

/-- The error that the scanner of a source has met once it has been asked `n` times
(`Scanner.Err`). -/
def streamError? (source : Text) (n : Nat) : Option ScanError :=
  ((Scanner.ofSource source).after n).error

end Token

end Ravel
