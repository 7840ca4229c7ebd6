import Ravel.Yaml.Scalar

/-!
# Tokens of documents of nested nodes

The tokens of a document are its marks and scalars, and what the columns of its lines say: where
block collections start and end, and which scalars are keys. That a scalar is a key is only seen
at the colon after it, on the same line. Until then it is a pending key, before which a token for
the key, and one for a mapping that starts with it, may still be put.

A token counts only once the two after it have been found, so a document is refused for what
stands there although it ends before.
-/

namespace Ravel.Yaml

/-- What a token stands for. -/
inductive TokenKind where
  | documentStart
  | documentEnd
  /-- The end of everything. -/
  | streamEnd
  | blockSequence
  | blockMapping
  | blockEnd
  | openBracket
  | closeBracket
  | openBrace
  | closeBrace
  | comma
  /-- The hyphen before an item of a block sequence. -/
  | entry
  | key
  | value
  | scalar (quoted : Bool) (text : Text)
  deriving DecidableEq, Repr

/-- A token and the number of the line on which it starts. -/
structure Token where
  line : Nat
  kind : TokenKind
  deriving DecidableEq, Repr

/-- A token that may turn out to be a key: its index among the tokens and its place. In a column
in which a key has to stand, it is required to be one. -/
structure PendingKey where
  index : Nat
  line : Nat
  column : Nat
  required : Bool
  deriving Repr

/-- A key ends on its line, at most 1024 characters after its start. -/
def PendingKey.isStale (k : PendingKey) (c : Cursor) : Bool :=
  k.line < c.line || k.column + 1024 < c.column

/-- A document that is being taken apart. -/
structure Scanner where
  cursor : Cursor
  tokens : Array Token
  /-- The columns of the block collections that are open, the innermost first. -/
  columns : List Nat
  /-- The pending keys, the innermost first: one between each pair of brackets that is open, and
  one outside of them. -/
  keys : List (Option PendingKey)
  /-- A key may start here. -/
  keyAllowed : Bool
  deriving Repr

namespace Scanner

/-- The start of a document. -/
def start (document : List Char) : Scanner := ⟨.start document, #[], [], [none], true⟩

/-- A place between brackets. -/
def inFlow (s : Scanner) : Bool := 1 < s.keys.length

/-- Puts a token before the one at an index. -/
def insert (s : Scanner) (index line : Nat) (kind : TokenKind) : Scanner :=
  { s with tokens := s.tokens.take index ++ #[⟨line, kind⟩] ++ s.tokens.drop index }

/-- Adds a token that starts at the cursor. -/
def push (s : Scanner) (kind : TokenKind) : Scanner :=
  { s with tokens := s.tokens.push ⟨s.cursor.line, kind⟩ }

/-- Adds a token of a few characters at the cursor and moves after them. -/
def take (s : Scanner) (width : Nat) (kind : TokenKind) : Scanner :=
  { s.push kind with cursor := s.cursor.skip width }

/-- Moves over blanks. In block style a tab is none of them where a key may start. -/
def skipBlanks (s : Scanner) : Scanner :=
  let tabs := s.inFlow || !s.keyAllowed
  { s with cursor := s.cursor.skipWhile fun c => c == ' ' || (c == '\t' && tabs) }

/-- Moves to the next token, over blanks, line ends and comments. A byte order mark may start a
line. -/
def toToken : (fuel : Nat) → Scanner → Scanner
  | 0, s => s
  | fuel + 1, s =>
    let marked := s.cursor.column == 0 && s.cursor.isAt '\ufeff'
    let s := skipBlanks (if marked then { s with cursor := s.cursor.next } else s)
    let s :=
      if s.cursor.isAt '#' then
        { s with cursor := s.cursor.commentsEnd (s.cursor.rest.length + 1) }
      else s
    match s.cursor.rest with
    | [] => s
    | c :: _ =>
      if isBreak c then
        toToken fuel { s with cursor := s.cursor.next, keyAllowed := s.keyAllowed || !s.inFlow }
      else s

/-- Moves over a comment on the line of the last token. -/
def skipComment (s : Scanner) : Scanner :=
  let ahead := s.cursor.skipWhile isBlank
  if ahead.isAt '#' then { s with cursor := ahead.toLineEnd } else s

/-- Ends the innermost block collections whose columns do not stay open. Between brackets there
are none to end. -/
def closeBlocks (s : Scanner) (stays : Nat → Bool) : Scanner :=
  if s.inFlow then s
  else
    let closed := (s.columns.takeWhile (!stays ·)).length
    { s with
      tokens := s.tokens ++ Array.replicate closed ⟨s.cursor.line, .blockEnd⟩
      columns := s.columns.drop closed }

/-- The most collections that may be open, in block style and between brackets. -/
def nestingLimit : Nat := 10000

/-- Starts a block collection in a column, before the token at an index, unless one is open
there. -/
def openBlock? (s : Scanner) (index line column : Nat) (kind : TokenKind) : Option Scanner :=
  if s.inFlow || s.columns.head?.any (column ≤ ·) then some s
  else if nestingLimit ≤ s.columns.length then none
  else some { s.insert index line kind with columns := column :: s.columns }

/-- Gives up the innermost pending key, unless it is required. -/
def dropKey? (s : Scanner) : Option Scanner :=
  match s.keys with
  | some k :: keys => if k.required then none else some { s with keys := none :: keys }
  | _ => some s

/-- Lets the token that starts at the cursor be a pending key if a key may start there. -/
def awaitKey? (s : Scanner) : Option Scanner :=
  if s.keyAllowed then do
    let s ← s.dropKey?
    let required := !s.inFlow && s.columns.head? == some s.cursor.column
    let key : PendingKey := ⟨s.tokens.size, s.cursor.line, s.cursor.column, required⟩
    return { s with keys := some key :: s.keys.tail }
  else return s

/-- The end of the document. -/
def finish? (s : Scanner) : Option Scanner := do
  let s ← (s.closeBlocks fun _ => false).dropKey?
  return { s.push .streamEnd with keyAllowed := false }

/-- A line that divides documents. -/
def divider? (s : Scanner) (kind : TokenKind) : Option Scanner := do
  let s ← (s.closeBlocks fun _ => false).dropKey?
  return { s.take 3 kind with keyAllowed := false }

/-- An opening bracket, which may be a part of a key. -/
def opening? (s : Scanner) (kind : TokenKind) : Option Scanner := do
  let s ← s.awaitKey?
  if nestingLimit < s.keys.length then none
  else return { (s.take 1 kind).skipComment with keys := none :: s.keys, keyAllowed := true }

/-- A closing bracket. -/
def closing? (s : Scanner) (kind : TokenKind) : Option Scanner := do
  let s ← s.dropKey?
  let keys := if s.inFlow then s.keys.tail else s.keys
  return { (s.take 1 kind).skipComment with keys := keys, keyAllowed := false }

/-- A comma. -/
def comma? (s : Scanner) : Option Scanner := do
  let s ← s.dropKey?
  return { (s.take 1 .comma).skipComment with keyAllowed := true }

/-- The hyphen of an item, where a key may start. -/
def entry? (s : Scanner) : Option Scanner := do
  if !s.inFlow && !s.keyAllowed then none
  else
    let c := s.cursor
    let s ← s.openBlock? s.tokens.size c.line c.column .blockSequence
    let s ← s.dropKey?
    return { s.take 1 .entry with keyAllowed := true }

/-- The question mark before a key, where a key may start. -/
def keyMark? (s : Scanner) : Option Scanner := do
  if !s.inFlow && !s.keyAllowed then none
  else
    let c := s.cursor
    let s ← s.openBlock? s.tokens.size c.line c.column .blockMapping
    let s ← s.dropKey?
    return { (s.take 1 .key).skipComment with keyAllowed := !s.inFlow }

/-- A colon without a pending key. -/
def bareValue? (s : Scanner) : Option Scanner := do
  if !s.inFlow && !s.keyAllowed then none
  else
    let c := s.cursor
    let s ← s.openBlock? s.tokens.size c.line c.column .blockMapping
    return { (s.take 1 .value).skipComment with keyAllowed := !s.inFlow }

/-- The colon after a key. -/
def value? (s : Scanner) : Option Scanner :=
  match s.keys with
  | some k :: keys =>
    if k.isStale s.cursor then
      if k.required then none else { s with keys := none :: keys }.bareValue?
    else do
      let s ← (s.insert k.index k.line .key).openBlock? k.index k.line k.column .blockMapping
      return { (s.take 1 .value).skipComment with keys := none :: keys, keyAllowed := false }
  | _ => s.bareValue?

/-- Adds a scalar that starts at the cursor. After one that a line end follows, a key may
start. -/
def scalar (s : Scanner) (quoted : Bool) (read : Read) : Scanner :=
  let s := { s.push (.scalar quoted read.toText) with
    cursor := read.after, keyAllowed := read.newLine }
  if read.newLine then s else s.skipComment

/-- A quoted scalar, which may be a key. -/
def quotedScalar? (s : Scanner) (mark : Char) : Option Scanner := do
  let s ← s.awaitKey?
  let read ← quoted? mark [] [] [] false (s.cursor.rest.length + 1) s.cursor.next
  return s.scalar true read

/-- A plain scalar, which may be a key. Its lines stand to the right of the innermost block
collection. -/
def plainScalar? (s : Scanner) : Option Scanner := do
  let s ← s.awaitKey?
  let indent := (s.columns.head?.map (· + 1)).getD 0
  let read ← plain? s.inFlow indent [] [] [] (s.cursor.rest.length + 1) s.cursor
  return s.scalar false read

/-- Finds the next token, together with those that belong before it. -/
def next? (s : Scanner) : Option Scanner :=
  let s := s.toToken (s.cursor.rest.length + 1)
  let s := s.closeBlocks (· ≤ s.cursor.column)
  match s.cursor.rest with
  | [] => s.finish?
  | c :: rest =>
    if s.cursor.isAtDivider then s.divider? (if c == '-' then .documentStart else .documentEnd)
    else if c == '[' then s.opening? .openBracket
    else if c == '{' then s.opening? .openBrace
    else if c == ']' then s.closing? .closeBracket
    else if c == '}' then s.closing? .closeBrace
    else if c == ',' then s.comma?
    else if c == '-' && startsBlank rest then s.entry?
    else if c == '?' && (s.inFlow || startsBlank rest) then s.keyMark?
    else if c == ':' && (s.inFlow || startsBlank rest) then s.value?
    else if c == '\x22' || c == '\x27' then s.quotedScalar? c
    else if startsPlain s.inFlow s.cursor.rest then s.plainScalar?
    else none

/-- The indices of the tokens that may still turn out to be keys, or have to be. -/
def pendingIndices (s : Scanner) : List Nat :=
  s.keys.filterMap fun
    | some k => if k.isStale s.cursor && !k.required then none else some k.index
    | none => none

/-- The tokens that count although no further one can be found: those before the last two and
before the pending keys. -/
def settled (s : Scanner) : List Token :=
  s.tokens.toList.take (s.pendingIndices.foldl min (s.tokens.size - 2))

/-- The last token has been found. -/
def isFinished (s : Scanner) : Bool := s.tokens.back?.any (·.kind == .streamEnd)

/-- Finds the tokens after those already found. -/
def run : (fuel : Nat) → Scanner → List Token
  | 0, s => s.settled
  | fuel + 1, s =>
    match s.next? with
    | none => s.settled
    | some s => if s.isFinished then s.tokens.toList else run fuel s

end Scanner

/-- The tokens of a document. The last one is the end of everything, unless the document breaks a
rule after the tokens given. -/
def tokens (document : List Char) : List Token :=
  (Scanner.start document).run (document.length + 1)

end Ravel.Yaml
