import Ravel.Text.Decimal
import Ravel.Text.Quoted

/-!
# Documents of keys and values

The part of TOML that settings are written in: lines `key = value` with bare, quoted and dotted
keys, section headers, strings, integers, fractions, truth values and arrays. A document is read
into its entries in order. The decoder of the whole format is a library's, so results about profiles
hold for any decoder (`Ravel.Profile.Decoders`); this one is what the program runs with.
-/

namespace Ravel.Toml

/-- A value. Of a fraction only that it is one is kept. -/
inductive Value where
  | string (s : Text)
  | integer (n : Int64)
  | fraction
  | boolean (b : Bool)
  | array (items : List Value)
  deriving Repr

/-- The name of the type of a value in messages. -/
def Value.typeName : Value → Text
  | .string _ => Text.ofString "string"
  | .integer _ => Text.ofString "int64"
  | .fraction => Text.ofString "float64"
  | .boolean _ => Text.ofString "bool"
  | .array _ => Text.ofString "[]any"

/-- An entry of a document: a key with its value on a line, or the header of a section. The key
has the parts of the section before its own. -/
structure Entry where
  key : List Text
  line : Nat
  value : Option Value
  deriving Repr

/-- A byte that may stand in a key without quotes. -/
def isBare (b : UInt8) : Bool :=
  Text.isDigit b || (65 ≤ b && b ≤ 90) || (97 ≤ b && b ≤ 122) || b == 95 || b == 45

/-- A byte of a key as it stands in double quotes. -/
def quoteKeyByte (b : UInt8) : Text :=
  if b = 34 || b = 92 then [92, b]
  else if b = 8 then [92, 98]
  else if b = 9 then [92, 116]
  else if b = 10 then [92, 110]
  else if b = 12 then [92, 102]
  else if b = 13 then [92, 114]
  else if b < 32 || b = 127 then 92 :: 117 :: Text.hexDigits 4 b.toNat
  else [b]

/-- A part of a key as it is named in messages: in quotes unless it can do without. -/
def namePart (part : Text) : Text :=
  if !part.isEmpty && part.all isBare then part else (34 :: part.flatMap quoteKeyByte) ++ [34]

/-- A key as it is named in messages, its parts divided by points. -/
def nameKey (key : List Text) : Text := Text.join [46] (key.map namePart)

end Ravel.Toml
