import Ravel.Toml.Basic

/-!
# Reading documents of keys and values

Reading takes the document apart from its start; each reader gives what it found and the text
after it. A document that breaks a rule is refused as a whole.
-/

namespace Ravel.Toml

/-- The text after the blanks that it starts with. -/
def skipBlanks (s : Text) : Text := s.dropWhile fun b => b == 32 || b == 9

/-- The text after blanks, line ends and comments; `comment` says that it starts inside one. -/
def skipLoop : (comment : Bool) → Text → Text
  | _, [] => []
  | true, b :: rest => skipLoop (b != 10) rest
  | false, b :: rest =>
    if b = 32 || b = 9 || b = 10 || b = 13 then skipLoop false rest
    else if b = 35 then skipLoop true rest
    else b :: rest

/-- The text after the blanks, line ends and comments that it starts with. -/
def skipLines (s : Text) : Text := skipLoop false s

/-- What an escape denotes whose backslash is followed by `c` and `rest`, and how many bytes of
`rest` it takes. -/
def escape? (c : UInt8) (rest : Text) : Option (Text × Nat) :=
  let char (width : Nat) : Option (Text × Nat) :=
    if rest.length < width then none
    else do
      let n ← Text.hexNumber? (rest.take width)
      if n.isValidChar then return (Text.ofChar (Char.ofNat n), width) else none
  if c = 98 then some ([8], 0)
  else if c = 116 then some ([9], 0)
  else if c = 110 then some ([10], 0)
  else if c = 102 then some ([12], 0)
  else if c = 114 then some ([13], 0)
  else if c = 101 then some ([27], 0)
  else if c = 34 || c = 92 then some ([c], 0)
  else if c = 120 then char 2
  else if c = 117 then char 4
  else if c = 85 then char 8
  else none

/-- Reads a string up to its closing double quote: what it denotes, after `read` in reverse, and
the text after it. `skip` bytes belong to the last escape. -/
def basicLoop (read : Text) : (skip : Nat) → Text → Option (Text × Text)
  | _, [] => none
  | skip + 1, _ :: rest => basicLoop read skip rest
  | 0, b :: rest =>
    if b = 34 then some (read.reverse, rest)
    else if b = 10 then none
    else if b = 92 then
      match rest with
      | [] => none
      | c :: more =>
        match escape? c more with
        | none => none
        | some (bytes, used) => basicLoop (bytes.reverse ++ read) (used + 1) rest
    else basicLoop (b :: read) 0 rest

/-- Reads a string without escapes up to its closing single quote. -/
def literalString? (s : Text) : Option (Text × Text) :=
  match s.dropWhile fun b => b != 39 && b != 10 with
  | 39 :: rest => some (s.takeWhile fun b => b != 39 && b != 10, rest)
  | _ => none

/-- Reads a part of a key. -/
def keyPart? : Text → Option (Text × Text)
  | 34 :: s => basicLoop [] 0 s
  | 39 :: s => literalString? s
  | s =>
    let part := s.takeWhile isBare
    if part.isEmpty then none else some (part, s.dropWhile isBare)

/-- Reads a key: parts with points between them. -/
def key? : (fuel : Nat) → Text → Option (List Text × Text)
  | 0, _ => none
  | fuel + 1, s => do
    let (part, rest) ← keyPart? (skipBlanks s)
    match skipBlanks rest with
    | 46 :: rest => do
      let (parts, rest) ← key? fuel rest
      return (part :: parts, rest)
    | rest => return ([part], rest)

/-- Each underscore of a number stands between two of its digits. -/
def underscoresOk (digit : UInt8 → Bool) : (after : Bool) → Text → Bool
  | after, [] => after
  | after, b :: s =>
    if b = 95 then after && underscoresOk digit false s
    else underscoresOk digit (digit b) s

/-- Digits of a decimal number with underscores between them, at least one. -/
def isDigits (s : Text) : Bool :=
  s.all (fun b => Text.isDigit b || b == 95) && underscoresOk Text.isDigit false s

/-- The digits of a whole number, which do not start with a zero that could be left out. -/
def isWhole (s : Text) : Bool :=
  isDigits s && (match s with
    | 48 :: _ :: _ => false
    | _ => true)

/-- The integer that a word denotes. -/
def integer? (word : Text) : Option Int64 :=
  match word with
  | 48 :: m :: digits =>
    if (m = 98 || m = 111 || m = 120)
        && underscoresOk (fun b => (Text.hexValue? b).isSome) false digits then
      (Text.readLiteral word).toOption
    else none
  | _ =>
    let (negative, digits) := Text.signed word
    if isWhole digits then
      let n := Text.digitsValue (digits.filter (· != 95))
      Text.toInt64? (if negative then -(n : Int) else n)
    else none

/-- A word that denotes a fraction. -/
def isFraction (word : Text) : Bool :=
  let (_, unsigned) := Text.signed word
  if unsigned = Text.ofString "inf" || unsigned = Text.ofString "nan" then true
  else
    let isPoint (b : UInt8) : Bool := b == 46 || b == 101 || b == 69
    let whole := unsigned.takeWhile (!isPoint ·)
    let isTail (rest : Text) : Bool :=
      match rest with
      | [] => true
      | _ :: exponent => isDigits (Text.signed exponent).2
    let formed :=
      match unsigned.dropWhile (!isPoint ·) with
      | [] => false
      | 46 :: rest =>
        isDigits (rest.takeWhile (!isPoint ·)) && isTail (rest.dropWhile (!isPoint ·))
          && (rest.dropWhile (!isPoint ·)).head? != some 46
      | rest => isTail rest
    isWhole whole && formed
      && (match Decimal.read? (word.filter (· != 95)) with
        | some d => !d.overflows
        | none => false)

/-- A byte of a number or a word. -/
def isWordByte (b : UInt8) : Bool := isBare b || b == 43 || b == 46 || b == 58

/-- The value that a word denotes. -/
def word? (word : Text) : Option Value :=
  if word = Text.ofString "true" then some (.boolean true)
  else if word = Text.ofString "false" then some (.boolean false)
  else match integer? word with
    | some n => some (.integer n)
    | none => if isFraction word then some .fraction else none

/-- Reads the items of an array up to its closing bracket, after those already read (in
reverse). -/
def items? (item? : Text → Option (Value × Text)) (read : List Value) :
    (fuel : Nat) → Text → Option (List Value × Text)
  | 0, _ => none
  | fuel + 1, s =>
    match skipLines s with
    | 93 :: rest => some (read.reverse, rest)
    | s => do
      let (item, rest) ← item? s
      match skipLines rest with
      | 44 :: rest => items? item? (item :: read) fuel rest
      | 93 :: rest => return ((item :: read).reverse, rest)
      | _ => none

/-- Reads a value. -/
def value? : (fuel : Nat) → Text → Option (Value × Text)
  | 0, _ => none
  | fuel + 1, s =>
    match s with
    | 34 :: rest => (basicLoop [] 0 rest).map fun p => (.string p.1, p.2)
    | 39 :: rest => (literalString? rest).map fun p => (.string p.1, p.2)
    | 91 :: rest => (items? (value? fuel) [] s.length rest).map fun p => (.array p.1, p.2)
    | s => (word? (s.takeWhile isWordByte)).map (·, s.dropWhile isWordByte)

/-- The text after the end of a line on which only blanks and a comment may still stand. -/
def lineEnd? (s : Text) : Option Text :=
  match skipBlanks s with
  | [] => some []
  | 10 :: rest => some rest
  | 35 :: rest => some (rest.dropWhile (· != 10))
  | _ => none

/-- What a key stands for: a value, or a table, which may so far only be implied by longer
keys. -/
inductive Slot where
  | leaf
  | table (implied : Bool)
  deriving DecidableEq, Repr

/-- The keys that a document has defined so far. -/
abbrev Scope := List (List Text × Slot)

/-- What a key stands for so far. -/
def Scope.find (scope : Scope) (key : List Text) : Option Slot := scope.lookup key

/-- Lets a key stand for a slot. -/
def Scope.put (scope : Scope) (key : List Text) (slot : Slot) : Scope := (key, slot) :: scope

/-- Implies the tables that the parts of a header before its last one name. -/
def Scope.imply (scope : Scope) (done : List Text) : List Text → Option Scope
  | [] => some scope
  | [_] => some scope
  | part :: rest =>
    let key := done ++ [part]
    match scope.find key with
    | none => Scope.imply (scope.put key (.table true)) key rest
    | some (.table _) => Scope.imply scope key rest
    | some .leaf => none

/-- Opens a section: its table is new, or was only implied. -/
def Scope.openSection (scope : Scope) (key : List Text) : Option Scope := do
  let scope ← scope.imply [] key
  match scope.find key with
  | none => return scope.put key (.table false)
  | some (.table true) => return scope.put key (.table false)
  | some _ => none

/-- Enters the tables that the parts of a dotted key before its last one name. -/
def Scope.enter (scope : Scope) (done : List Text) : List Text → Option Scope
  | [] => some scope
  | [_] => some scope
  | part :: rest =>
    let key := done ++ [part]
    match scope.find key with
    | none => Scope.enter (scope.put key (.table true)) key rest
    | some (.table _) => Scope.enter (scope.put key (.table false)) key rest
    | some .leaf => none

/-- Defines a key in a section; it must not stand for anything yet. -/
def Scope.define (scope : Scope) (context key : List Text) : Option Scope := do
  let scope ← scope.enter context key
  let key := context ++ key
  match scope.find key with
  | none => return scope.put key .leaf
  | some _ => none

/-- Reads entries after those already read (in reverse), in the section `context`. `lineOf` gives
the number of the line on which a rest of the document starts. -/
def entries? (lineOf : Text → Nat) (context : List Text) (scope : Scope) (read : List Entry) :
    (fuel : Nat) → Text → Option (List Entry)
  | 0, _ => none
  | fuel + 1, s =>
    match skipLines s with
    | [] => some read.reverse
    | 91 :: rest => do
      let (key, after) ← key? rest.length rest
      match after with
      | 93 :: after => do
        let scope ← scope.openSection key
        let next ← lineEnd? after
        entries? lineOf key scope (⟨key, lineOf rest, none⟩ :: read) fuel next
      | _ => none
    | s => do
      let (key, after) ← key? s.length s
      match after with
      | 61 :: after => do
        let after := skipBlanks after
        let (value, rest) ← value? after.length after
        let scope ← scope.define context key
        let rest ← lineEnd? rest
        entries? lineOf context scope (⟨context ++ key, lineOf after, some value⟩ :: read) fuel rest
      | _ => none

/-- A text of valid characters whose control characters are tabs and line ends. -/
def isPlain : Text → Bool
  | [] => true
  | 13 :: 10 :: rest => isPlain rest
  | b :: rest => (b == 9 || b == 10 || (32 ≤ b && b != 127)) && isPlain rest

/-- A text without the carriage returns before line feeds. -/
def unixLines (s : Text) : Text := s.filter (· != 13)

/-- The byte order marks that may start a document. -/
def orderMarks : List Text := [[0xef, 0xbb, 0xbf], [0xff, 0xfe], [0xfe, 0xff]]

/-- The entries of a document, unless it breaks a rule. A byte order mark at its start does not
count. -/
def parse? (document : Text) : Option (List Entry) :=
  let document := (orderMarks.findSome? (Text.after? · document)).getD document
  if !document.isUtf8 || !isPlain document then none
  else
    let document := unixLines document
    let total := document.count 10
    entries? (fun rest => 1 + total - rest.count 10) [] [] [] (document.length + 1) document

end Ravel.Toml
