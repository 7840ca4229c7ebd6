import Ravel.Text.Quoted
import Ravel.Text.Number

/-!
# Errors of values

The ways in which literals, verbs and nesting fail, each with its kind and its message.

Source: package `value`: `ErrorKind`, `Error`.
-/

namespace Ravel

/-- The kinds of errors of values (`value.ErrorKind`). -/
inductive ValueError.Kind where
  | shapeMismatch
  | invalidShape
  | indexOutOfRange
  | invalidArgument
  | recursionLimitExceeded
  | sizeLimitExceeded
  deriving DecidableEq, Repr

namespace ValueError.Kind

/-- All kinds, in the order of their numbers from 1 on. -/
def all : List Kind :=
  [.shapeMismatch, .invalidShape, .indexOutOfRange, .invalidArgument, .recursionLimitExceeded,
    .sizeLimitExceeded]

/-- The name of a kind, which starts the message of an error. -/
def name : Kind → Text
  | .shapeMismatch => Text.ofString "shape mismatch"
  | .invalidShape => Text.ofString "invalid shape"
  | .indexOutOfRange => Text.ofString "index out of range"
  | .invalidArgument => Text.ofString "invalid argument"
  | .recursionLimitExceeded => Text.ofString "recursion limit exceeded"
  | .sizeLimitExceeded => Text.ofString "size limit exceeded"

end ValueError.Kind

/-- What went wrong with a value (`value.Error`). -/
inductive ValueError where
  /-- A literal holds no number. -/
  | emptyLiteral
  /-- A literal holds a word that is no 64-bit integer. -/
  | badNumber (word : Text)
  /-- A shape has a negative axis. -/
  | negativeAxis (length : Int64)
  /-- A shape asks for another number of elements than there are. -/
  | elementCount (shape : List Int64) (needed : Int64) (given : Nat)
  /-- Iota of more or fewer than one number. -/
  | iotaShape (shape : List Int64)
  /-- Iota of a negative number. -/
  | iotaNegative (n : Int64)
  /-- A verb would build more elements than the limit allows. -/
  | tooManyElements (verb : Text) (count limit : Int64)
  /-- A sum is no 64-bit integer. -/
  | overflow (x y : Int64)
  /-- The shapes of two operands do not fit each other. -/
  | shapesDiffer (verb : Text) (left right : List Int64)
  /-- The left operand of reshape is neither scalar nor vector. -/
  | reshapeRank (shape : List Int64)
  /-- Reshape to a negative axis. -/
  | reshapeNegative (length : Int64)
  /-- Reshape to a shape of more elements than the limit allows. -/
  | reshapeTooLarge (shape : List Int64) (limit : Int64)
  /-- Reshape of nothing to a shape that has elements. -/
  | reshapeNothing (shape : List Int64)
  /-- From selects an item that is not there. -/
  | itemOutOfRange (index items : Int64)
  /-- An expression is nested too deeply; the place is known while it is parsed. -/
  | tooDeep (limit : Int64) (offset : Option Int)
  deriving DecidableEq, Repr

namespace ValueError

/-- The kind of an error. -/
def kind : ValueError → Kind
  | .emptyLiteral => .invalidArgument
  | .badNumber _ => .invalidArgument
  | .negativeAxis _ => .invalidShape
  | .elementCount _ _ _ => .invalidShape
  | .iotaShape _ => .invalidArgument
  | .iotaNegative _ => .invalidArgument
  | .tooManyElements _ _ _ => .sizeLimitExceeded
  | .overflow _ _ => .invalidArgument
  | .shapesDiffer _ _ _ => .shapeMismatch
  | .reshapeRank _ => .invalidShape
  | .reshapeNegative _ => .invalidShape
  | .reshapeTooLarge _ _ => .sizeLimitExceeded
  | .reshapeNothing _ => .invalidArgument
  | .itemOutOfRange _ _ => .indexOutOfRange
  | .tooDeep _ _ => .recursionLimitExceeded

open Text in
/-- What an error says after its kind. -/
def detail : ValueError → Text
  | .emptyLiteral => ofString "empty literal"
  | .badNumber word => ofString "bad number " ++ quote word
  | .negativeAxis n => ofString "negative axis length " ++ ofInt64 n
  | .elementCount shape needed given =>
    ofString "shape " ++ bracketed shape ++ ofString " needs " ++ ofInt64 needed
      ++ ofString " elements; have " ++ ofNat given
  | .iotaShape shape => ofString "iota needs a single number; have shape " ++ bracketed shape
  | .iotaNegative n => ofString "iota of negative number " ++ ofInt64 n
  | .tooManyElements verb count limit =>
    verb ++ ofString " of " ++ ofInt64 count ++ ofString " elements exceeds limit of "
      ++ ofInt64 limit
  | .overflow x y => ofString "integer overflow: " ++ ofInt64 x ++ ofString " + " ++ ofInt64 y
  | .shapesDiffer verb left right =>
    verb ++ ofString ": shapes " ++ bracketed left ++ ofString " and " ++ bracketed right
      ++ ofString " do not conform"
  | .reshapeRank shape =>
    ofString "reshape: left argument must be a vector; have shape " ++ bracketed shape
  | .reshapeNegative n => ofString "reshape: negative axis length " ++ ofInt64 n
  | .reshapeTooLarge shape limit =>
    ofString "reshape: shape " ++ bracketed shape ++ ofString " exceeds limit of "
      ++ ofInt64 limit ++ ofString " elements"
  | .reshapeNothing shape => ofString "reshape: no elements to fill shape " ++ bracketed shape
  | .itemOutOfRange index items =>
    ofString "from: index " ++ ofInt64 index ++ ofString " out of range [0, " ++ ofInt64 items
      ++ ofString ")"
  | .tooDeep limit offset =>
    ofString "expression nested more than " ++ ofInt64 limit ++ ofString " deep"
      ++ (match offset with
        | some n => ofString " at offset " ++ ofInt n
        | none => [])

/-- The message of an error of a kind with some detail. -/
def messageOf (kind detail : Text) : Text := kind ++ Text.ofString ": " ++ detail

/-- The message of an error. -/
def message (e : ValueError) : Text := messageOf e.kind.name e.detail

end ValueError

end Ravel
