import Ravel.Text.Decimal
import Ravel.Yaml.Timestamp

/-!
# Documents of nested nodes

The part of YAML that settings are written in: block mappings and sequences, flow sequences and
mappings, and plain and quoted scalars. What a plain scalar denotes is seen from its text. The
decoder of the whole format is a library's, so results about profiles hold for any decoder
(`Ravel.Profile.Decoders`); this one is what the program runs with.
-/

namespace Ravel.Yaml

/-- A node of a document, with the number of the line on which it starts. -/
inductive Node where
  /-- A scalar; a quoted one is always a string. -/
  | scalar (line : Nat) (quoted : Bool) (text : Text)
  | sequence (line : Nat) (items : List Node)
  | mapping (line : Nat) (pairs : List (Node × Node))
  deriving Repr

namespace Node

/-- The line on which a node starts. -/
def line : Node → Nat
  | .scalar line _ _ => line
  | .sequence line _ => line
  | .mapping line _ => line

/-- The node that stands where there is none. -/
def empty (line : Nat) : Node := .scalar line false []

/-- A node that stands where there is none. -/
def isEmpty : Node → Bool
  | .scalar _ false [] => true
  | _ => false

end Node

/-- What a scalar denotes. -/
inductive Scalar where
  | null
  | boolean
  | integer (n : Int)
  | fraction (d : Decimal)
  /-- Positive infinity or no number, which no integer comes near. -/
  | infinite
  /-- Negative infinity. -/
  | negativeInfinite
  | timestamp
  | string
  deriving DecidableEq, Repr

/-- The tag of what a scalar denotes. -/
def Scalar.tag : Scalar → Text
  | .null => Text.ofString "!!null"
  | .boolean => Text.ofString "!!bool"
  | .integer _ => Text.ofString "!!int"
  | .fraction _ => Text.ofString "!!float"
  | .infinite => Text.ofString "!!float"
  | .negativeInfinite => Text.ofString "!!float"
  | .timestamp => Text.ofString "!!timestamp"
  | .string => Text.ofString "!!str"

/-- One of some words. -/
def isOneOf (words : List String) (s : Text) : Bool := words.any fun w => Text.ofString w = s

/-- The integer of a text whose sign stands after the mark of its base, which is 2 or 8. -/
def lateSigned? : Text → Option Int
  | 48 :: m :: sign :: digits =>
    if (m = 98 || m = 111) && (sign = 43 || sign = 45) && !digits.isEmpty then do
      let n ← (Text.literalValue (if m = 98 then 2 else 8) 0 digits).toOption
      let n ← Text.toInt64? (if sign = 45 then -(n : Int) else n)
      return n.toInt
    else none
  | _ => none

/-- The integer that the text of a scalar denotes: signed or unsigned of 64 bits, with a mark of
its base, where underscores do not count. -/
def integer? (s : Text) : Option Int :=
  let s := s.filter (· != 95)
  let (negative, unsigned) := Text.signed s
  if unsigned.isEmpty then none
  else
    let (base, digits) := Text.literalBase unsigned
    match Text.literalValue base 0 digits with
    | .error _ => lateSigned? s
    | .ok n =>
      if s.length = unsigned.length then some n
      else if n < 0x8000000000000000 || (negative && n = 0x8000000000000000) then
        some (if negative then -(n : Int) else n)
      else none

/-- The fraction that the text of a scalar denotes. -/
def fraction? (s : Text) : Option Decimal :=
  match Decimal.read? s with
  | some d => if d.overflows then none else some d
  | none => none

/-- What the text of a plain scalar denotes. -/
def resolve (s : Text) : Scalar :=
  if isOneOf ["", "~", "null", "Null", "NULL"] s then .null
  else if isOneOf ["true", "True", "TRUE", "false", "False", "FALSE"] s then .boolean
  else if isOneOf [".nan", ".NaN", ".NAN", ".inf", ".Inf", ".INF", "+.inf", "+.Inf", "+.INF"] s then
    .infinite
  else if isOneOf ["-.inf", "-.Inf", "-.INF"] s then .negativeInfinite
  else
    match s with
    | 46 :: _ =>
      match if Text.underscoresOk s then fraction? (s.filter (· != 95)) else none with
      | some d => .fraction d
      | none => .string
    | b :: _ =>
      if Timestamp.isTimestamp s then .timestamp
      else if Text.isDigit b || b = 43 || b = 45 then
        match integer? s with
        | some n => .integer n
        | none =>
          match fraction? (s.filter (· != 95)) with
          | some d => .fraction d
          | none => .string
      else .string
    | [] => .null

end Ravel.Yaml
