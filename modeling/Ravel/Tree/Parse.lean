import Ravel.Token.Scan
import Ravel.Tree.Basic

/-!
# From tokens to a tree

The grammar is

    expression := term | term verb expression
    term       := verb term | number | vector | ( expression )

The parser goes through the tokens once. What has been read but not finished is a stack of
frames: verbs that wait for the operand on their right, and open parentheses. After each step the
parser either needs a term or has one.

Source: package `parse`: `Parse`, `Parser`, `Error`.
-/

namespace Ravel

/-- The kinds of errors in the order of tokens (`parse.ErrorKind`). -/
inductive ParseError.Kind where
  | unexpectedToken
  | unexpectedEndOfInput
  | unmatchedParenthesis
  deriving DecidableEq, Repr

namespace ParseError.Kind

/-- All kinds, in the order of their numbers from 1 on. -/
def all : List Kind := [.unexpectedToken, .unexpectedEndOfInput, .unmatchedParenthesis]

/-- The name of a kind, which starts the message of an error. -/
def name : Kind → Text
  | .unexpectedToken => Text.ofString "unexpected token"
  | .unexpectedEndOfInput => Text.ofString "unexpected end of input"
  | .unmatchedParenthesis => Text.ofString "unmatched parenthesis"

end ParseError.Kind

/-- Why tokens form no expression (`parse.Error`). -/
inductive ParseError where
  /-- A token that cannot stand where it does. -/
  | misplaced (kind : ParseError.Kind) (token : Token)
  /-- Nesting beyond the guard of the parser, found at an offset. -/
  | tooDeep (limit : Int64) (offset : Int)
  deriving DecidableEq, Repr

namespace ParseError

/-- The message of an error; the end of the input needs no place. -/
def message : ParseError → Text
  | .misplaced kind token =>
    if token.kind = .eof then kind.name
    else kind.name ++ [32] ++ token.text.quote ++ Text.ofString " at offset "
      ++ Text.ofInt token.offset
  | .tooDeep limit offset => (ValueError.tooDeep limit (some offset)).message

/-- The error of a token that starts no term or follows no expression. -/
def unexpected (token : Token) : ParseError :=
  .misplaced (if token.kind = .eof then .unexpectedEndOfInput else .unexpectedToken) token

end ParseError

namespace Tree

/-- What has been read of an unfinished part of a tree. The mark of a verb is missing if its
token has no text. -/
inductive Frame where
  /-- A verb with nothing on its left waits for a term. -/
  | monad (mark : Option UInt8) (offset : Int)
  /-- A verb with a left operand waits for an expression. -/
  | dyad (left : Tree) (mark : Option UInt8) (offset : Int)
  /-- A left parenthesis waits for an expression and its right parenthesis. -/
  | paren (opening : Token)
  deriving DecidableEq, Repr

/-- The fault of a verb whose token has no text. -/
def noMark : Fault := .indexOutOfRange 0 0

/-- Hands a finished term to the verbs that wait for a term. -/
def closeMonads : List Frame → Tree → Except Fault (List Frame × Tree)
  | .monad (some mark) offset :: frames, t => closeMonads frames (.monad mark t offset)
  | .monad none _ :: _, _ => .error noMark
  | frames, t => .ok (frames, t)

/-- Hands a finished expression to the verbs that wait for an expression. -/
def closeDyads : List Frame → Tree → Except Fault (List Frame × Tree)
  | .dyad left (some mark) offset :: frames, t => closeDyads frames (.dyad left mark t offset)
  | .dyad _ none _ :: _, _ => .error noMark
  | frames, t => .ok (frames, t)

/-- The guard of the parser: an expression counts one level for each frame and one for itself, and
there may be no more than twice the limit and two, in 64-bit arithmetic that wraps
(`Parser.enter`). -/
def withinGuard (limit : Int64) (frames : List Frame) : Bool :=
  (frames.length + 1 : Int) ≤ (2 * limit + 2).toInt

/-- The end of the parse at a token that is not consumed, while a term is needed (`none`) or
there is one (`some`). -/
def finish (token : Token) (frames : List Frame) : Option Tree → Except (Halt ParseError) Tree
  | none => .error (.error (.unexpected token))
  | some t =>
    match closeDyads frames t with
    | .error f => .error (.fault f)
    | .ok ([], t) =>
      match token.kind with
      | .eof => .ok t
      | .rightParen => .error (.error (.misplaced .unmatchedParenthesis token))
      | _ => .error (.error (.unexpected token))
    | .ok (.paren opening :: _, _) =>
      match token.kind with
      | .eof => .error (.error (.misplaced .unmatchedParenthesis opening))
      | _ => .error (.error (.unexpected token))
    | .ok (_ :: _, _) => .error (.error (.unexpected token))

/-- The next token to come, the end of the input at `stop` if there is none. -/
def upcoming (stop : Int) : List Token → Token
  | [] => Token.endAt stop
  | token :: _ => token

/-- Parses on with frames and perhaps a term (`Parser.expression`, `Parser.term`). -/
def parseLoop (limit : Int64) (stop : Int) (frames : List Frame) (term : Option Tree) :
    List Token → Except (Halt ParseError) Tree
  | [] => finish (Token.endAt stop) frames term
  | token :: rest =>
    match term, token.kind with
    | none, .verb =>
      let frames := .monad token.text.head? token.offset :: frames
      if withinGuard limit frames then parseLoop limit stop frames none rest
      else .error (.error (.tooDeep limit token.offset))
    | none, .leftParen =>
      let frames := .paren token :: frames
      if withinGuard limit frames then parseLoop limit stop frames none rest
      else .error (.error (.tooDeep limit (upcoming stop rest).offset))
    | some t, .verb =>
      let frames := .dyad t token.text.head? token.offset :: frames
      if withinGuard limit frames then parseLoop limit stop frames none rest
      else .error (.error (.tooDeep limit (upcoming stop rest).offset))
    | some t, .rightParen =>
      match closeDyads frames t with
      | .error f => .error (.fault f)
      | .ok (.paren opening :: frames, t) =>
        match closeMonads frames (.paren t opening.offset) with
        | .error f => .error (.fault f)
        | .ok (frames, t) => parseLoop limit stop frames (some t) rest
      | .ok _ => finish token frames term
    | none, .number | none, .vector =>
      match Noun.ofLiteral token.text with
      | .error _ => .error (.error (.unexpected token))
      | .ok value =>
        match closeMonads frames (.literal value token.offset) with
        | .error f => .error (.fault f)
        | .ok (frames, t) => parseLoop limit stop frames (some t) rest
    | _, _ => finish token frames term

/-- The tree of tokens that form one expression (`parse.Parse`). -/
def parse (limit : Int64) (tokens : List Token) : Except (Halt ParseError) Tree :=
  let stop := Token.endOffset tokens
  if withinGuard limit [] then parseLoop limit stop [] none tokens
  else .error (.error (.tooDeep limit (upcoming stop tokens).offset))

end Tree

end Ravel
