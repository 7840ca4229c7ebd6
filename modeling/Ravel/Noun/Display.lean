import Ravel.Noun.Basic

/-!
# How nouns are written

A result is displayed: a vector on one line, a matrix a row to a line with its columns aligned,
and higher ranks as their matrices with empty lines between them. As a part of an expression a
noun is written so that reading it gives the noun again.

Source: package `value`: `Array.String`, `Array.ProgString`, `IsCompound`.
-/

namespace Ravel.Noun

/-- A cell filled up with blanks on its left to a width. -/
def padded (width : Nat) (cell : Text) : Text := List.replicate (width - cell.length) 32 ++ cell

/-- The next `rows` rows of `cols` cells each, after those already laid out (in reverse)
(`value.write2d`). `index` of the `total` cells have been used; a row that lacks cells is a
fault. -/
def layRows (width cols total : Nat) (laid : List Text) :
    (rows index : Nat) → List Text → Except Fault (List Text)
  | 0, _, _ => .ok laid.reverse
  | rows + 1, index, cells =>
    let row := cells.take cols
    if row.length < cols then .error (.indexOutOfRange (index + row.length) total)
    else
      layRows width cols total (Text.join [32] (row.map (padded width)) :: laid)
        rows (index + cols) (cells.drop cols)

/-- Lays out the next `count` blocks of `size` cells each, after those already laid out (in
reverse). -/
def layBlocks (layBlock : List Text → Except Fault Text) (size : Nat) (laid : List Text) :
    (count : Nat) → List Text → Except Fault (List Text)
  | 0, _ => .ok laid.reverse
  | count + 1, cells =>
    match layBlock (cells.take size) with
    | .error f => .error f
    | .ok block => layBlocks layBlock size (block :: laid) count (cells.drop size)

/-- Lays out cells in a shape of two or more axes: the rows of a matrix on lines of their own, and
one more line feed between blocks for each further axis (`value.writeNd`). -/
def layOut (width : Nat) : List Int64 → List Text → Except Fault Text
  | [], _ => .ok []
  | [_], _ => .ok []
  | [rows, cols], cells => do
    let laid ← layRows width cols.toInt.toNat cells.length [] rows.toInt.toNat 0 cells
    return Text.join Text.newline laid
  | n :: axis :: next :: rest, cells =>
    if n = 0 then .error .divisionByZero
    else do
      let size := (cells.length / n.toInt).toNat
      let laid ← layBlocks (layOut width (axis :: next :: rest)) size [] n.toInt.toNat cells
      return Text.join (Text.times (rest.length + 2) Text.newline) laid

/-- The width of the widest cell, at least 1. -/
def cellWidth (cells : List Text) : Nat := cells.foldl (fun w cell => max w cell.length) 1

/-- The text that shows a noun as a result; nothing for a noun without elements (`Array.String`). -/
def display (a : Noun) : Except Fault Text :=
  if a.data.isEmpty then .ok []
  else if a.isScalar then do return Text.ofInt64 (← a.element 0)
  else match a.shape with
    | [_] => .ok (Text.ofInt64s a.data.toList)
    | shape =>
      let cells := a.data.toList.map Text.ofInt64
      layOut (cellWidth cells) shape cells

/-- The text that denotes a noun in an expression: its elements if it is a scalar or a vector with
elements, and else a reshape (`Array.ProgString`). -/
def source (a : Noun) : Text :=
  if a.rank ≤ 1 && !a.data.isEmpty then Text.ofInt64s a.data.toList
  else
    (40 :: Text.ofInt64s a.shape) ++ Text.ofString ")#"
      ++ (if a.data.isEmpty then Text.ofString "~0" else Text.ofInt64s a.data.toList)

/-- A noun whose text in an expression is a reshape, and so needs parentheses as an operand
(`value.IsCompound`). -/
def isCompound (a : Noun) : Bool := 1 < a.rank || a.data.isEmpty

end Ravel.Noun
