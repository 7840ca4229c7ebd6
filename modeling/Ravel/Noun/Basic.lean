import Ravel.Fault
import Ravel.Noun.Error
import Ravel.Text.Blank

/-!
# Nouns

A noun is an array of 64-bit integers of any rank: the lengths of its axes and its elements in
row-major order. The elements of a noun are as many as the product of its axes; `ofShape` checks
this for a given shape, in the wrapping arithmetic of 64-bit integers.

Source: package `value`: `Array`, `NewArray`, `Parse`.
-/

namespace Ravel

/-- An array of integers: its shape and its elements in row-major order (`value.Array`). -/
structure Noun where
  shape : List Int64
  data : Array Int64
  deriving DecidableEq, Repr, Inhabited

namespace Noun

/-- The noun of rank 0 with one element (`value.NewScalar`). -/
def scalar (x : Int64) : Noun := ⟨[], #[x]⟩

/-- The noun of rank 1 with the given elements (`value.NewVector`). -/
def vector (xs : Array Int64) : Noun := ⟨[Int64.ofNat xs.size], xs⟩

/-- The product of the axes, wrapping at 64 bits. -/
def product (shape : List Int64) : Int64 := shape.foldl (· * ·) 1

/-- The noun of a shape and elements: no axis is negative, and the (wrapping) product of the axes is
the number of the elements (`value.NewArray`). -/
def ofShape (shape : List Int64) (data : Array Int64) : Except ValueError Noun :=
  match shape.find? (· < 0) with
  | some n => .error (.negativeAxis n)
  | none =>
    if (product shape).toInt = data.size then .ok ⟨shape, data⟩
    else .error (.elementCount shape (product shape) data.size)

/-- The number of axes (`Array.Rank`). -/
def rank (a : Noun) : Nat := a.shape.length

/-- The number of elements (`Array.Len`). -/
def size (a : Noun) : Nat := a.data.size

/-- A scalar or a vector of one element: the nouns that are paired with every element of another one
(`Array.IsScalar`). -/
def isScalar (a : Noun) : Bool :=
  match a.shape with
  | [] => true
  | [n] => n == 1
  | _ => false

/-- The number of items along the first axis; a scalar is its own only item (`Array.items`). -/
def items (a : Noun) : Int64 :=
  match a.shape with
  | [] => 1
  | n :: _ => n

/-- The shape of an item: all axes but the first. -/
def itemShape (a : Noun) : List Int64 := a.shape.tail

/-- The element at a position in row-major order (`Array.At`). -/
def element (a : Noun) (index : Int) : Except Fault Int64 :=
  if index < 0 then .error (.indexOutOfRange index a.size)
  else match a.data[index.toNat]? with
    | some x => .ok x
    | none => .error (.indexOutOfRange index a.size)

/-- The numbers that words denote; the first word that is no number is the error. -/
def readWords (read : Array Int64) : List Text → Except ValueError (Array Int64)
  | [] => .ok read
  | word :: rest =>
    match Text.readInt64? word with
    | some x => readWords (read.push x) rest
    | none => .error (.badNumber word)

/-- The noun that a literal denotes: one number is a scalar, several between white space are a
vector (`value.Parse`). -/
def ofLiteral (literal : Text) : Except ValueError Noun :=
  match literal.words with
  | [] => .error .emptyLiteral
  | words => do
    let data ← readWords #[] words
    match data.toList with
    | [x] => return scalar x
    | _ => return vector data

end Noun

end Ravel
