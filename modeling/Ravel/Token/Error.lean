import Ravel.Token.Basic

/-!
# Errors of scanning

A place of the source that no token can start at, with the message and the token that report it.

Source: package `scan`: `ErrorKind`, `Error`.
-/

namespace Ravel

/-- The kinds of errors of scanning (`scan.ErrorKind`). -/
inductive ScanError.Kind where
  | unrecognizedCharacter
  | invalidNumber
  deriving DecidableEq, Repr

namespace ScanError.Kind

/-- All kinds, in the order of their numbers from 1 on. -/
def all : List Kind := [.unrecognizedCharacter, .invalidNumber]

/-- The name of a kind, which starts the message of an error. -/
def name : Kind → Text
  | .unrecognizedCharacter => Text.ofString "unrecognized character"
  | .invalidNumber => Text.ofString "invalid number"

end ScanError.Kind

/-- A place of the source that no token can start at: its kind, offset and text (`scan.Error`). -/
structure ScanError where
  kind : ScanError.Kind
  offset : Nat
  text : Text
  deriving DecidableEq, Repr

namespace ScanError

/-- The first character of a text as it is cited in messages. -/
def citeFirst : Text → Text
  | [] => Text.citeChar '\ufffd'
  | b :: rest => Text.citeChar (Text.firstGlyph b rest).shown

/-- The message of an error: it cites the character, or quotes the number. -/
def message (e : ScanError) : Text :=
  e.kind.name ++ [32]
    ++ (match e.kind with
      | .unrecognizedCharacter => citeFirst e.text
      | .invalidNumber => e.text.quote)
    ++ Text.ofString " at offset " ++ Text.ofNat e.offset

/-- The token that reports an error. -/
def token (e : ScanError) : Token := ⟨.error, e.offset, e.message⟩

end ScanError

end Ravel
