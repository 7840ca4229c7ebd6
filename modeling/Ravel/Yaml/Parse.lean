import Ravel.Yaml.Basic
import Ravel.Yaml.Token

/-!
# Reading documents of nested nodes

A node is read from the first of its tokens on; each reader gives what it found and the tokens
after it. A document that breaks a rule is refused as a whole, and what follows the first document
is not read.
-/

namespace Ravel.Yaml

/-- The node that tokens start with, or the empty one of a line if it ends before it starts. -/
def optional? (node? : List Token → Option (Node × List Token)) (ends : List TokenKind)
    (line : Nat) : List Token → Option (Node × List Token)
  | [] => none
  | t :: rest => if ends.contains t.kind then some (.empty line, t :: rest) else node? (t :: rest)

/-- The line of the next token. -/
def nextLine (ts : List Token) : Nat := (ts.head?.map Token.line).getD 0

/-- Reads the items of a block sequence up to its end, after those already read (in reverse). -/
def blockItems? (node? : List Token → Option (Node × List Token)) (read : List Node) :
    (fuel : Nat) → List Token → Option (List Node × List Token)
  | 0, _ => none
  | _, [] => none
  | fuel + 1, t :: rest =>
    match t.kind with
    | .entry => do
      let (item, rest) ← optional? node? [.entry, .blockEnd] t.line rest
      blockItems? node? (item :: read) fuel rest
    | .blockEnd => some (read.reverse, rest)
    | _ => none

/-- Reads the items of a sequence that stands in the column of the keys around it. -/
def plainItems? (node? : List Token → Option (Node × List Token)) (read : List Node) :
    (fuel : Nat) → List Token → Option (List Node × List Token)
  | 0, _ => none
  | _, [] => none
  | fuel + 1, t :: rest =>
    if t.kind = .entry then do
      let (item, rest) ← optional? node? [.entry, .key, .value, .blockEnd] t.line rest
      plainItems? node? (item :: read) fuel rest
    else some (read.reverse, t :: rest)

/-- Reads the pairs of a block mapping up to its end, after those already read (in reverse). -/
def blockPairs? (node? : List Token → Option (Node × List Token)) (read : List (Node × Node)) :
    (fuel : Nat) → List Token → Option (List (Node × Node) × List Token)
  | 0, _ => none
  | _, [] => none
  | fuel + 1, t :: rest =>
    match t.kind with
    | .key => do
      let (key, rest) ← optional? node? [.key, .value, .blockEnd] t.line rest
      match rest with
      | [] => none
      | v :: more => do
        let (value, rest) ←
          if v.kind = .value then optional? node? [.key, .value, .blockEnd] v.line more
          else some (.empty v.line, v :: more)
        blockPairs? node? ((key, value) :: read) fuel rest
    | .blockEnd => some (read.reverse, rest)
    | _ => none

/-- The tokens of the next item between brackets: it is the first one, or a comma stands before
it. There may be none after the last comma. -/
def flowItem? (closing : TokenKind) (first : Bool) : List Token → Option (List Token)
  | [] => none
  | t :: rest =>
    if first || t.kind = closing then some (t :: rest)
    else if t.kind = .comma then some rest
    else none

/-- Reads the value of a key between brackets, if there is one. -/
def flowValue? (node? : List Token → Option (Node × List Token)) (closing : TokenKind) :
    List Token → Option (Node × List Token)
  | [] => none
  | t :: rest =>
    if t.kind = .value then optional? node? [.comma, closing] (nextLine rest) rest
    else some (.empty t.line, t :: rest)

/-- Reads the items of a flow sequence up to its closing bracket, after those already read (in
reverse). A key with a value is a mapping of its own; a key that is missing takes the place of
the token there. -/
def flowItems? (node? : List Token → Option (Node × List Token)) (read : List Node) :
    (fuel : Nat) → List Token → Option (List Node × List Token)
  | 0, _ => none
  | fuel + 1, ts => do
    match ← flowItem? .closeBracket read.isEmpty ts with
    | [] => none
    | t :: rest =>
      match t.kind with
      | .closeBracket => return (read.reverse, rest)
      | .key => do
        let (key, rest) ← optional? node? [.value, .comma, .closeBracket] (nextLine rest) rest
        let rest := if key.isEmpty then rest.tail else rest
        let (value, rest) ← flowValue? node? .closeBracket rest
        flowItems? node? (.mapping t.line [(key, value)] :: read) fuel rest
      | _ => do
        let (item, rest) ← node? (t :: rest)
        flowItems? node? (item :: read) fuel rest

/-- Reads the pairs of a flow mapping up to its closing brace, after those already read (in
reverse). -/
def flowPairs? (node? : List Token → Option (Node × List Token)) (read : List (Node × Node)) :
    (fuel : Nat) → List Token → Option (List (Node × Node) × List Token)
  | 0, _ => none
  | fuel + 1, ts => do
    match ← flowItem? .closeBrace read.isEmpty ts with
    | [] => none
    | t :: rest =>
      match t.kind with
      | .closeBrace => return (read.reverse, rest)
      | .key => do
        let (key, rest) ← optional? node? [.value, .comma, .closeBrace] (nextLine rest) rest
        let (value, rest) ← flowValue? node? .closeBrace rest
        flowPairs? node? ((key, value) :: read) fuel rest
      | _ => do
        let (key, rest) ← node? (t :: rest)
        flowPairs? node? ((key, .empty (nextLine rest)) :: read) fuel rest

/-- Reads a node. Block collections are allowed outside of brackets; the items of a sequence may
stand in the column of a key (`besideKey`) if it is the node of a key. -/
def node? : (fuel : Nat) → (block besideKey : Bool) → List Token → Option (Node × List Token)
  | 0, _, _, _ => none
  | _, _, _, [] => none
  | fuel + 1, block, besideKey, t :: rest =>
    match t.kind with
    | .scalar quoted text => some (.scalar t.line quoted text, rest)
    | .openBracket => do
      let (items, rest) ← flowItems? (node? fuel false false) [] rest.length rest
      return (.sequence t.line items, rest)
    | .openBrace => do
      let (pairs, rest) ← flowPairs? (node? fuel false false) [] rest.length rest
      return (.mapping t.line pairs, rest)
    | .entry =>
      if besideKey then do
        let (items, rest) ← plainItems? (node? fuel true false) [] (rest.length + 1) (t :: rest)
        return (.sequence t.line items, rest)
      else none
    | .blockSequence =>
      if block then do
        let (items, rest) ← blockItems? (node? fuel true false) [] rest.length rest
        return (.sequence t.line items, rest)
      else none
    | .blockMapping =>
      if block then do
        let (pairs, rest) ← blockPairs? (node? fuel true true) [] rest.length rest
        return (.mapping t.line pairs, rest)
      else none
    | _ => none

/-- Reads the root of a document, which ends at a further token. -/
def root? (ts : List Token) : Option Node :=
  match node? ts.length true false ts with
  | some (root, _ :: _) => some root
  | _ => none

/-- A character that may stand in a document. -/
def isAllowed : Glyph → Bool
  | .byte _ => false
  | .char c =>
    let n := c.toNat
    n == 9 || n == 10 || n == 13 || (32 ≤ n && n ≤ 126) || n == 0x85 || (0xa0 ≤ n && n ≤ 0xd7ff)
      || (0xe000 ≤ n && n ≤ 0xfffd) || 0x10000 ≤ n

/-- The root of the first document of a text: none of them (`some none`) if the text holds
nothing, and `none` if it breaks a rule. A byte order mark at its start does not count. -/
def parse? (document : Text) : Option (Option Node) :=
  let glyphs := ((Text.after? [0xef, 0xbb, 0xbf] document).getD document).glyphs
  if !glyphs.all isAllowed then none
  else
    match tokens (unixLines (glyphs.map Glyph.shown)) with
    | [] => none
    | t :: rest =>
      match t.kind with
      | .streamEnd => some none
      | .documentStart =>
        match rest with
        | [] => none
        | next :: _ =>
          if [.documentStart, .documentEnd, .streamEnd].contains next.kind then some none
          else (root? rest).map some
      | _ => (root? (t :: rest)).map some

end Ravel.Yaml
