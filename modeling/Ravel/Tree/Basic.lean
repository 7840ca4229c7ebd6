import Ravel.Noun.Display
import Ravel.Token.Basic

/-!
# Trees of expressions

The tree of an expression as it is written. Whether a verb is applied to one noun or to two is
seen from whether something stands on its left; whether it has that form is not yet decided.

Source: package `parse`: `Node`, `Tree`.
-/

namespace Ravel

/-- The tree of an expression (`parse.Node`). Offsets are those of the literal, the verb and the
left parenthesis in the source. -/
inductive Tree where
  /-- A number or a vector of numbers. -/
  | literal (value : Noun) (offset : Int)
  /-- A verb with nothing on its left. -/
  | monad (mark : UInt8) (right : Tree) (offset : Int)
  /-- A verb between two operands. -/
  | dyad (left : Tree) (mark : UInt8) (right : Tree) (offset : Int)
  /-- An expression in parentheses. -/
  | paren (inner : Tree) (offset : Int)
  /-- The place of an operand that is not there. No source has such a tree. -/
  | hole
  deriving DecidableEq, Repr

namespace Tree

/-- The outline of a tree: literals in angle brackets, applications in parentheses and parenthesized
expressions in square brackets (`parse.Tree`). -/
def outline : Tree → Text
  | .literal value _ => (60 :: value.source) ++ [62]
  | .monad mark right _ => (40 :: Text.ofByte mark) ++ 32 :: (right.outline ++ [41])
  | .dyad left mark right _ =>
    (40 :: left.outline) ++ 32 :: (Text.ofByte mark ++ 32 :: (right.outline ++ [41]))
  | .paren inner _ => (91 :: inner.outline) ++ [93]
  | .hole => Text.ofString "<nil>"

end Tree

end Ravel
