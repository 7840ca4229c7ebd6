import Ravel.Noun.Basic
import Ravel.Verb.Basic

/-!
# Monadic verbs

What the monadic form of each verb makes of the noun on its right.

Source: package `value`: `UnaryOps`, `interval`, `checkSize`.
-/

namespace Ravel

/-- Refuses a count of elements above the limit (`value.checkSize`). -/
def checkCount (limit : Int64) (verb : Text) (count : Int64) : Except (Halt ValueError) Unit :=
  if limit < count then .error (.error (.tooManyElements verb count limit)) else .ok ()

namespace Noun

/-- The vector 0 1 … n-1 for a single number n (`value.interval`). -/
def iota (limit : Int64) (a : Noun) : Except (Halt ValueError) Noun :=
  if !a.isScalar then .error (.error (.iotaShape a.shape))
  else match a.element 0 with
    | .error f => .error (.fault f)
    | .ok n =>
      if n < 0 then .error (.error (.iotaNegative n))
      else do
        checkCount limit MonadicForm.iota.name n
        if !isStorable n then .error (.fault .lengthOutOfRange)
        else .ok ⟨[n], (Array.range n.toInt.toNat).map Int64.ofNat⟩

/-- The number of items as a scalar (`value.unaryTally`). -/
def tally (a : Noun) : Noun := scalar a.items

/-- The elements as a vector (`value.unaryRavel`). -/
def ravel (a : Noun) : Noun := vector a.data

end Noun

/-- Applies a monadic form to the noun on its right. There are no boxed nouns, so that box gives
the noun itself. -/
def MonadicForm.apply (limit : Int64) : MonadicForm → Noun → Except (Halt ValueError) Noun
  | .identity, a => .ok a
  | .iota, a => a.iota limit
  | .tally, a => .ok a.tally
  | .ravel, a => .ok a.ravel
  | .box, a => .ok a

end Ravel
