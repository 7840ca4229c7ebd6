import Ravel.Expr.Context
import Ravel.Tree.Basic
import Ravel.Verb.Basic

/-!
# From a tree to an expression

Resolving drops the parentheses of a tree and checks that every verb has the form in which it is
used. Operands come before the verb that uses them, the right one first. Verbs and parentheses
count one level each toward the limit of depth.

Source: package `exec`: `Context.Resolve`, `SemanticError`.
-/

namespace Ravel

/-- The forms that a verb can lack (`exec.SemanticErrorKind`). -/
inductive SemanticError.Kind where
  | noMonadicForm
  | noDyadicForm
  deriving DecidableEq, Repr

namespace SemanticError.Kind

/-- All kinds, in the order of their numbers from 1 on. -/
def all : List Kind := [.noMonadicForm, .noDyadicForm]

/-- The name of a kind, which starts the message of an error. -/
def name : Kind → Text
  | .noMonadicForm => Text.ofString "no monadic form"
  | .noDyadicForm => Text.ofString "no dyadic form"

end SemanticError.Kind

/-- A verb that lacks the form in which it is used (`exec.SemanticError`). The offset is negative if
it is unknown. -/
structure SemanticError where
  kind : SemanticError.Kind
  mark : UInt8
  offset : Int
  deriving DecidableEq, Repr

/-- The message of an error, with its place if that is known. -/
def SemanticError.message (e : SemanticError) : Text :=
  e.kind.name ++ Text.ofString " for " ++ (Text.ofByte e.mark).quote
    ++ (if e.offset < 0 then [] else Text.ofString " at offset " ++ Text.ofInt e.offset)

/-- Why a tree is no expression. -/
inductive ResolveError where
  | form (e : SemanticError)
  | depth (e : ValueError)
  /-- An operand is not there. -/
  | hole
  deriving DecidableEq, Repr

/-- The message of an error. -/
def ResolveError.message : ResolveError → Text
  | .form e => e.message
  | .depth e => e.message
  | .hole => Text.ofString "cannot resolve <nil>"

namespace Tree

/-- Runs a part of the resolution one level deeper. -/
def deeper {α : Type} (c : Context) (part : Context → Except ResolveError α × Context) :
    Except ResolveError α × Context :=
  match c.enter with
  | .error e => (.error (.depth e), c)
  | .ok c =>
    let (result, c) := part c
    (result, c.leave)

/-- The expression of a tree, and the context afterwards (`Context.Resolve`). -/
def resolve : Tree → Context → Except ResolveError Expr × Context
  | .literal value _, c => (.ok (.noun value), c)
  | .paren inner _, c => deeper c inner.resolve
  | .monad mark right offset, c =>
    deeper c fun c =>
      match right.resolve c with
      | (.error e, c) => (.error e, c)
      | (.ok right, c) =>
        if (Verb.monadic? mark).isSome then (.ok (.monad mark right), c)
        else (.error (.form ⟨.noMonadicForm, mark, offset⟩), c)
  | .dyad left mark right offset, c =>
    deeper c fun c =>
      match right.resolve c with
      | (.error e, c) => (.error e, c)
      | (.ok right, c) =>
        match left.resolve c with
        | (.error e, c) => (.error e, c)
        | (.ok left, c) =>
          if (Verb.dyadic? mark).isSome then (.ok (.dyad left mark right), c)
          else (.error (.form ⟨.noDyadicForm, mark, offset⟩), c)
  | .hole, c => (.error .hole, c)

end Tree

end Ravel
