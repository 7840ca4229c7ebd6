import Ravel.Text.Number

/-!
# Faults

A fault is a bound of the machine that a computation broke: a request for more storage than there
can be, or an access outside the elements. It is no error of the expression, which the evaluator
checks for and reports; `Halt` keeps the two apart.

Source: the `runtime.Error` panics that `run.Eval` takes for internal errors.
-/

namespace Ravel

/-- A bound of the machine that a computation broke. -/
inductive Fault where
  /-- Storage of an impossible length was asked for. -/
  | lengthOutOfRange
  /-- Storage of an impossible capacity was asked for. -/
  | capacityOutOfRange
  /-- The element at `index` of `length` ones was read. -/
  | indexOutOfRange (index : Int) (length : Nat)
  /-- A section was asked for that ends beyond the capacity or below zero. -/
  | sectionEnd (stop : Int) (capacity : Nat)
  /-- A section was asked for that starts after its end or below zero. -/
  | sectionStart (start stop : Int)
  /-- A number was divided by zero. -/
  | divisionByZero
  deriving DecidableEq, Repr

namespace Fault

/-- What a fault says of itself. -/
def detail : Fault → Text
  | .lengthOutOfRange => Text.ofString "makeslice: len out of range"
  | .capacityOutOfRange => Text.ofString "makeslice: cap out of range"
  | .indexOutOfRange index length =>
    if index < 0 then Text.ofString "index out of range [" ++ Text.ofInt index ++ Text.ofString "]"
    else Text.ofString "index out of range [" ++ Text.ofInt index
      ++ Text.ofString "] with length " ++ Text.ofNat length
  | .sectionEnd stop capacity =>
    if stop < 0 then
      Text.ofString "slice bounds out of range [:" ++ Text.ofInt stop ++ Text.ofString "]"
    else Text.ofString "slice bounds out of range [:" ++ Text.ofInt stop
      ++ Text.ofString "] with capacity " ++ Text.ofNat capacity
  | .sectionStart start stop =>
    if start < 0 then
      Text.ofString "slice bounds out of range [" ++ Text.ofInt start ++ Text.ofString ":]"
    else Text.ofString "slice bounds out of range [" ++ Text.ofInt start ++ Text.ofString ":"
      ++ Text.ofInt stop ++ Text.ofString "]"
  | .divisionByZero => Text.ofString "integer divide by zero"

/-- The message of a fault. -/
def message (f : Fault) : Text := Text.ofString "runtime error: " ++ f.detail

end Fault

/-- Why a computation ends without a value: an error that it reports, or a fault. -/
inductive Halt (ε : Type) where
  | error (e : ε)
  | fault (f : Fault)
  deriving DecidableEq, Repr

/-- The same end with the error put in other words. -/
def Halt.map {ε δ : Type} (f : ε → δ) : Halt ε → Halt δ
  | .error e => .error (f e)
  | .fault f => .fault f

/-- The most elements that storage can be asked for. -/
def storageLimit : Int := 0x200000000000

/-- A number of elements that storage can be asked for. -/
def isStorable (n : Int64) : Bool := 0 ≤ n.toInt && n.toInt ≤ storageLimit

end Ravel
