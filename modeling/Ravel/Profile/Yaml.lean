import Ravel.Profile.Basic
import Ravel.Yaml.Parse

/-!
# Profiles in documents of nested nodes

The root of the document is a mapping from the keys of a profile. All problems with it are
collected in the order of the document; only repeated keys are reported alone.
-/

namespace Ravel.Yaml

/-- What is wrong with a node. -/
inductive Fact where
  | unknownField (key : Text)
  /-- The key is already defined at another line. -/
  | repeatedKey (key : Text) (first : Nat)
  /-- A node of a tag, with its text if it is a scalar, where another type is wanted. -/
  | wrongType (tag : Text) (text : Option Text) (wanted : Text)
  deriving DecidableEq, Repr

/-- A problem with the node on a line. -/
structure Problem where
  line : Nat
  fact : Fact
  deriving DecidableEq, Repr

/-- The text of a scalar as it is cited in messages: a long one is cut. -/
def cite (text : Text) : Text :=
  if 10 < text.length then text.take 7 ++ Text.ofString "..." else text

/-- What is said of a fact. -/
def Fact.message : Fact → Text
  | .unknownField key =>
    Text.ofString "field " ++ key ++ Text.ofString " not found in type config.File"
  | .repeatedKey key first =>
    Text.ofString "mapping key " ++ key.quote ++ Text.ofString " already defined at line "
      ++ Text.ofNat first
  | .wrongType tag text wanted =>
    let cited : Text :=
      match text with
      | some t => Text.ofString " `" ++ cite t ++ Text.ofString "`"
      | none => []
    Text.ofString "cannot unmarshal " ++ tag ++ cited ++ Text.ofString " into " ++ wanted

/-- The line of a message that states a problem. -/
def Problem.message (p : Problem) : Text :=
  Text.ofString "  line " ++ Text.ofNat p.line ++ Text.ofString ": " ++ p.fact.message

/-- The message for some problems. -/
def problemsMessage (problems : List Problem) : Text :=
  Text.join Text.newline (Text.ofString "yaml: unmarshal errors:" :: problems.map Problem.message)

/-- What two keys have in common if they are the same: the kind of node, and the text of a
scalar. -/
def keyIdentity : Node → Nat × Text
  | .scalar _ _ text => (0, text)
  | .sequence _ _ => (1, [])
  | .mapping _ _ => (2, [])

/-- The problems with repeated keys: each pair of them is one. -/
def repeated : List (Node × Node) → List Problem
  | [] => []
  | (key, _) :: pairs =>
    ((pairs.filter fun p => keyIdentity p.1 = keyIdentity key).map fun p =>
      ⟨p.1.line, .repeatedKey (keyIdentity key).2 key.line⟩) ++ repeated pairs

/-- What a node denotes if it is a scalar. -/
def Node.scalar? : Node → Option (Scalar × Text)
  | .scalar _ quoted text => some (if quoted then .string else resolve text, text)
  | _ => none

/-- The problems with a node where a value of another type is wanted. -/
def mismatch (node : Node) (wanted : String) : List Problem :=
  let wanted := Text.ofString wanted
  match node with
  | .scalar line quoted text =>
    let tag := (if quoted then Scalar.string else resolve text).tag
    [⟨line, .wrongType tag (some text) wanted⟩]
  | .sequence line _ => [⟨line, .wrongType (Text.ofString "!!seq") none wanted⟩]
  | .mapping line pairs =>
    match repeated pairs with
    | [] => [⟨line, .wrongType (Text.ofString "!!map") none wanted⟩]
    | problems => problems

/-- The text that a node gives: a scalar as it is written, nothing for null. -/
def toText (node : Node) : Except (List Problem) (Option Text) :=
  match node.scalar? with
  | some (.null, _) => .ok none
  | some (_, text) => .ok (some text)
  | none => .error (mismatch node "string")

/-- The integer part of a fraction as a 64-bit integer; one that is too far below zero is the
least of them, and so is 2^63. -/
def wholeOf? (d : Decimal) : Option Int64 :=
  let n := d.truncate
  if n ≤ 0x8000000000000000 then some ((Text.toInt64? n).getD Int64.minValue) else none

/-- The integer that a node gives, nothing for null. -/
def toInt (node : Node) : Except (List Problem) (Option Int64) :=
  let wrong : Except (List Problem) (Option Int64) := .error (mismatch node "int")
  match node.scalar? with
  | some (.null, _) => .ok none
  | some (.integer n, _) =>
    match Text.toInt64? n with
    | some n => .ok (some n)
    | none => wrong
  | some (.fraction d, _) =>
    match wholeOf? d with
    | some n => .ok (some n)
    | none => wrong
  | some (.negativeInfinite, _) => .ok (some Int64.minValue)
  | _ => wrong

/-- The texts of a sequence; null items are left out. -/
def itemTexts : List Node → List Problem × List Text
  | [] => ([], [])
  | item :: items =>
    let (problems, texts) := itemTexts items
    match toText item with
    | .ok (some text) => (problems, text :: texts)
    | .ok none => (problems, texts)
    | .error ps => (ps ++ problems, texts)

/-- The texts that a node gives, nothing for null. -/
def toTexts (node : Node) : Except (List Problem) (Option (List Text)) :=
  match node with
  | .sequence _ items =>
    match itemTexts items with
    | ([], texts) => .ok (some texts)
    | (problems, _) => .error problems
  | node =>
    match node.scalar? with
    | some (.null, _) => .ok none
    | _ => .error (mismatch node "[]string")

/-- Puts the value of a node into a profile. -/
def put (p : Profile) (setting : Setting) (node : Node) : Except (List Problem) Profile :=
  match setting with
  | .prompt => do return { p with prompt := (← toText node).getD p.prompt }
  | .history => do return { p with history := (← toText node).getD p.history }
  | .maxDepth => do return { p with maxDepth := (← toInt node).getD p.maxDepth }
  | .maxElements => do return { p with maxElements := (← toInt node).getD p.maxElements }
  | .debug => do return { p with debug := (← toTexts node).getD p.debug }

/-- Takes a pair of the root into a profile, and the problems with it to those found. A null key
is passed over with its value. -/
def takePair (state : Profile × List Problem) (pair : Node × Node) : Profile × List Problem :=
  let (p, problems) := state
  match toText pair.1 with
  | .error ps => (p, problems ++ ps)
  | .ok none => state
  | .ok (some key) =>
    match Setting.ofKey? key with
    | none => (p, problems ++ [⟨pair.1.line, .unknownField key⟩])
    | some setting =>
      match put p setting pair.2 with
      | .ok p => (p, problems)
      | .error ps => (p, problems ++ ps)

/-- The profile that a document gives. -/
def profile : Node → Except (List Problem) Profile
  | .mapping _ pairs =>
    match repeated pairs with
    | [] =>
      match pairs.foldl takePair ({}, []) with
      | (p, []) => .ok p
      | (_, problems) => .error problems
    | problems => .error problems
  | node =>
    match node.scalar? with
    | some (.null, _) => .ok {}
    | _ => .error (mismatch node "config.File")

/-- A plain key that asks for another mapping to be merged in, which a profile does not do. -/
def asksForMerge : Node → Bool
  | .mapping _ pairs =>
    pairs.any fun p =>
      match p.1 with
      | .scalar _ quoted text => !quoted && text = [60, 60]
      | _ => false
  | _ => false

end Ravel.Yaml
