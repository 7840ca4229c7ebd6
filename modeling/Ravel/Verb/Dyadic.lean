import Std.Data.HashMap
import Ravel.Verb.Monadic

/-!
# Dyadic verbs

What the dyadic form of each verb makes of the nouns on its two sides.

Source: package `value`: `BinaryOps`, `elementwise`, `indexOf`, `reshapeOf`, `index`, `concat`.
-/

namespace Ravel.Noun

/-- The shape of an element-by-element result: that of the operand that is no scalar, or of both
if they agree. Of two scalars the one with more axes decides. -/
def commonShape (verb : Text) (u v : Noun) : Except ValueError (List Int64) :=
  if u.isScalar then
    if v.isScalar then .ok (if u.rank < v.rank then v.shape else u.shape) else .ok v.shape
  else if v.isScalar then .ok u.shape
  else if u.shape = v.shape then .ok u.shape
  else .error (.shapesDiffer verb u.shape v.shape)

/-- The pairs of elements that an element-by-element verb combines; a scalar is paired with every
element of the other operand. -/
def pairs (u v : Noun) : Except Fault (Array (Int64 × Int64)) :=
  if u.isScalar then
    if v.data.isEmpty then .ok #[]
    else do
      let x ← u.element 0
      return v.data.map (x, ·)
  else if v.isScalar then
    if u.data.isEmpty then .ok #[]
    else do
      let y ← v.element 0
      return u.data.map (·, y)
  else if v.size < u.size then .error (.indexOutOfRange v.size v.size)
  else .ok (u.data.zip v.data)

/-- Combines the elements of two nouns pair by pair (`value.elementwise`). -/
def elementwise (verb : Text) (f : Int64 → Int64 → Except ValueError Int64) (u v : Noun) :
    Except (Halt ValueError) Noun :=
  match commonShape verb u v, pairs u v with
  | .error e, _ => .error (.error e)
  | .ok _, .error e => .error (.fault e)
  | .ok shape, .ok ps =>
    match ps.mapM fun p => f p.1 p.2 with
    | .error e => .error (.error e)
    | .ok data => .ok ⟨shape, data⟩

/-- The sum of two integers if it is a 64-bit integer: a sum that wrapped lies on the wrong side
of the first summand. -/
def addElements (x y : Int64) : Except ValueError Int64 :=
  let z := x + y
  if (0 < y && z < x) || (y < 0 && x < z) then .error (.overflow x y) else .ok z

/-- The sums of the elements of two nouns (`value.add`). -/
def add (u v : Noun) : Except (Halt ValueError) Noun :=
  elementwise [43] addElements u v

/-- 1 where an element of the first noun is less than that of the second, else 0 (`value.less`). -/
def lessThan (u v : Noun) : Except (Halt ValueError) Noun :=
  elementwise [60] (fun x y => .ok (if x < y then 1 else 0)) u v

/-- The position of the first occurrence of each value among elements. Positions are entered from
the last one on, so that the first one stays. -/
def firstPositions (data : Array Int64) : Std.HashMap Int64 Nat :=
  (data.toList.zipIdx).foldr (fun p m => m.insert p.1 p.2) ∅

/-- The position of the first occurrence of each element of `u` in the elements of `v`, or -1
(`value.indexOf`). -/
def find (u v : Noun) : Noun :=
  let positions := firstPositions v.data
  ⟨u.shape, u.data.map fun x =>
    match positions[x]? with
    | some i => Int64.ofNat i
    | none => -1⟩

/-- The number of the elements of a shape without zero and negative axes, while it stays within a
limit. -/
def countWithin (limit : Int64) : Int64 → List Int64 → Option Int64
  | n, [] => some n
  | n, d :: shape => if limit / d < n then none else countWithin limit (n * d) shape

/-- The first `n` elements of the endless repetition of the given ones. -/
def cycle (n : Nat) (data : Array Int64) : Array Int64 :=
  (Array.range n).map fun i => data.getD (i % data.size) 0

/-- The elements of `v`, repeated or cut off, in the shape that `u` lists (`value.reshapeOf`). A
shape with a zero axis has no elements, however long its other axes. -/
def reshape (limit : Int64) (u v : Noun) : Except (Halt ValueError) Noun :=
  if 1 < u.rank then .error (.error (.reshapeRank u.shape))
  else
    let shape := u.data.toList
    match shape.find? (· < 0) with
    | some n => .error (.error (.reshapeNegative n))
    | none =>
      match if shape.contains 0 then some 0 else countWithin limit 1 shape with
      | none => .error (.error (.reshapeTooLarge shape limit))
      | some n =>
        if 0 < n && v.data.isEmpty then .error (.error (.reshapeNothing shape))
        else if !isStorable n then .error (.fault .lengthOutOfRange)
        else .ok ⟨shape, cycle n.toInt.toNat v.data⟩

/-- The elements of `data` from `start` to before `stop`. -/
def sectionOf (data : Array Int64) (start stop : Int64) : Except Fault (Array Int64) :=
  if stop < 0 || (data.size : Int) < stop.toInt then .error (.sectionEnd stop.toInt data.size)
  else if start < 0 || stop < start then .error (.sectionStart start.toInt stop.toInt)
  else .ok (data.extract start.toInt.toNat stop.toInt.toNat)

/-- Collects the items at some positions, after those already collected. -/
def collectItems (items itemSize : Int64) (data : Array Int64) (collected : Array Int64) :
    List Int64 → Except (Halt ValueError) (Array Int64)
  | [] => .ok collected
  | k :: rest =>
    if k < 0 || items ≤ k then .error (.error (.itemOutOfRange k items))
    else
      let start := k * itemSize
      match sectionOf data start (start + itemSize) with
      | .error f => .error (.fault f)
      | .ok item => collectItems items itemSize data (collected ++ item) rest

/-- The items of `v` at the positions that the elements of `u` name (`value.index`). The shape of
the result is that of `u` followed by that of an item. -/
def select (limit : Int64) (u v : Noun) : Except (Halt ValueError) Noun := do
  let itemSize := product v.itemShape
  let count := Int64.ofNat u.size * itemSize
  checkCount limit DyadicForm.from.name count
  if !isStorable count then .error (.fault .capacityOutOfRange)
  else do
    let data ← collectItems v.items itemSize v.data #[] u.data.toList
    return ⟨u.shape ++ v.itemShape, data⟩

/-- The shape of a noun in which a scalar counts as a vector of one element. -/
def shapeAsItems (a : Noun) : List Int64 := if a.shape.isEmpty then [1] else a.shape

/-- The shape of `u` followed by `v`: two vectors give a vector, and nouns of higher rank have to
agree in all axes but the first. -/
def appendShape (u v : Noun) : Except ValueError (List Int64) :=
  match u.shapeAsItems, v.shapeAsItems with
  | [_], [_] => .ok [Int64.ofNat (u.size + v.size)]
  | m :: us, n :: vs =>
    if us = vs then .ok ((m + n) :: us)
    else .error (.shapesDiffer DyadicForm.append.name u.shape v.shape)
  | _, _ => .error (.shapesDiffer DyadicForm.append.name u.shape v.shape)

/-- The items of `u` followed by those of `v` (`value.concat`). -/
def append (limit : Int64) (u v : Noun) : Except (Halt ValueError) Noun :=
  match appendShape u v with
  | .error e => .error (.error e)
  | .ok shape => do
    checkCount limit DyadicForm.append.name (Int64.ofNat u.size + Int64.ofNat v.size)
    return ⟨shape, u.data ++ v.data⟩

end Ravel.Noun

namespace Ravel

/-- Applies a dyadic form to the nouns on its left and right. -/
def DyadicForm.apply (limit : Int64) : DyadicForm → Noun → Noun → Except (Halt ValueError) Noun
  | .add, u, v => u.add v
  | .find, u, v => .ok (u.find v)
  | .reshape, u, v => u.reshape limit v
  | .from, u, v => u.select limit v
  | .append, u, v => u.append limit v
  | .lessThan, u, v => u.lessThan v

end Ravel
