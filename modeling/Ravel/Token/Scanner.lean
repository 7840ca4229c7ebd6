import Ravel.Token.Error

/-!
# Tokens on request

A scanner gives out the tokens of its input one at a time, for as long as it is asked, and keeps its
place in between. A request takes it from state to state: it passes over blanks, reads the groups of
a number run one by one, or reads a single character, until it has a token, an error or the end of
the input to give. An error empties the input.

Source: package `scan`: `Scanner` and its state functions.
-/

namespace Ravel

/-- A glyph that is a single byte, one of those that satisfy a condition. -/
def Glyph.isOf (p : UInt8 → Bool) : Glyph → Bool
  | .char c => c.toNat < 128 && p c.toUInt8
  | .byte _ => false

namespace Token

/-- A scanner: its input, the place up to which it has read, the place where the text that belongs
to no token yet starts, the width of the glyph it read last, the token it gives, and the error it
has met (`scan.Scanner`). -/
structure Scanner where
  input : Text
  position : Nat := 0
  start : Nat := 0
  width : Nat := 0
  token : Token := ⟨.eof, 0, []⟩
  error : Option ScanError := none
  deriving DecidableEq, Repr

namespace Scanner

/-- The scanner of a source that has not been asked yet. -/
def ofSource (source : Text) : Scanner := { input := source }

/-- The text that a scanner has not read. -/
def unread (s : Scanner) : Text := s.input.drop s.position

/-- The text from an offset up to the place a scanner has read to. -/
def since (s : Scanner) (offset : Nat) : Text :=
  (s.input.drop offset).take (s.position - offset)

/-- The glyph that stands next (`Scanner.peek`). -/
def peek? (s : Scanner) : Option Glyph :=
  match s.unread with
  | [] => none
  | b :: rest => some (Text.firstGlyph b rest)

/-- The glyph that stands next is a single byte that satisfies a condition. -/
def sees (s : Scanner) (p : UInt8 → Bool) : Bool := s.peek?.any (Glyph.isOf p)

/-- Reads the next glyph; at the end of the input there is none, and its width is 0
(`Scanner.next`). -/
def read (s : Scanner) : Scanner :=
  let width := s.peek?.elim 0 Glyph.width
  { s with position := s.position + width, width }

/-- Takes the glyph read last back (`Scanner.backup`). -/
def backUp (s : Scanner) : Scanner := { s with position := s.position - s.width, width := 0 }

/-! ### Runs of bytes -/

/-- What is left to read is what lies behind the position. -/
theorem length_unread (s : Scanner) : s.unread.length = s.input.length - s.position :=
  List.length_drop

private theorem length_unread_le {s t : Scanner} (hinput : t.input = s.input)
    (hposition : s.position ≤ t.position) : t.unread.length ≤ s.unread.length := by
  rw [length_unread, length_unread, hinput]
  omega

/-- A glyph that stands next is read. -/
private theorem length_unread_read_lt {s : Scanner} {g : Glyph} (h : s.peek? = some g) :
    s.read.unread.length < s.unread.length := by
  have hread : s.read.position = s.position + g.width := by simp [read, h]
  have hinput : s.read.input = s.input := rfl
  have hne : s.unread.length ≠ 0 := by
    intro h0
    rw [peek?, List.length_eq_zero_iff.mp h0] at h
    cases h
  have hwidth := g.width_pos
  rw [length_unread] at hne ⊢
  rw [length_unread, hread, hinput]
  omega

private theorem exists_peek?_of_sees {s : Scanner} {p : UInt8 → Bool} (h : s.sees p) :
    ∃ g, s.peek? = some g ∧ g.isOf p :=
  (Option.any_eq_true _ _).mp h

/-- Reads on as long as the next glyph is a byte that satisfies a condition. -/
def skip (p : UInt8 → Bool) (s : Scanner) : Scanner :=
  if s.sees p then skip p s.read else s
termination_by s.unread.length
decreasing_by
  obtain ⟨g, hg, -⟩ := exists_peek?_of_sees ‹_›
  exact length_unread_read_lt hg

/-- Reads on up to the first glyph that is no byte satisfying a condition, and takes it back
(`Scanner.acceptRun`). -/
def acceptRun (p : UInt8 → Bool) (s : Scanner) : Scanner :=
  if s.sees p then acceptRun p s.read else s.read.backUp
termination_by s.unread.length
decreasing_by
  obtain ⟨g, hg, -⟩ := exists_peek?_of_sees ‹_›
  exact length_unread_read_lt hg

/-! ### States -/

/-- Gives the text read since the last token as a token (`Scanner.emit`). -/
def emit (kind : TokenKind) (s : Scanner) : Scanner :=
  { s with token := ⟨kind, s.start, s.since s.start⟩, start := s.position }

/-- Meets an error: gives the token that reports it, and has no more to read (`Scanner.errorf`). -/
def fail (kind : ScanError.Kind) (offset : Nat) (text : Text) (s : Scanner) : Scanner :=
  let e : ScanError := ⟨kind, offset, text⟩
  { s with input := [], position := 0, start := 0, token := e.token, error := some e }

/-- What a scanner does next in the course of a request. -/
inductive State where
  /-- It looks for the start of a token. -/
  | any
  /-- It passes over blanks, of which it has read one. -/
  | space
  /-- It reads the next group of a number run, after a number of them. -/
  | number (groups : Nat)
  deriving DecidableEq, Repr

/-- Looks at the next glyph (`scan.lexAny`). -/
def lexAny (s : Scanner) : Option State × Scanner :=
  match s.peek? with
  | none => (none, s.read)
  | some g =>
    let t := s.read
    if g.isOf isBlank then (some .space, t)
    else if g.isOf Text.isDigit then (some (.number 0), t.backUp)
    else if g.isOf isVerb then (none, t.emit .verb)
    else if g.isOf (· == 40) then (none, t.emit .leftParen)
    else if g.isOf (· == 41) then (none, t.emit .rightParen)
    else (none, t.fail .unrecognizedCharacter t.start (t.since t.start))

/-- Passes over blanks, which belong to no token (`scan.lexSpace`). -/
def lexSpace (s : Scanner) : Option State × Scanner :=
  let t := s.skip isBlank
  (some .any, { t with start := t.position })

/-- Reads a group of digits, and goes on with the next one if only blanks stand between them
(`scan.lexNumber`). -/
def lexNumber (groups : Nat) (s : Scanner) : Option State × Scanner :=
  let t := s.acceptRun Text.isDigit
  let group := t.since s.position
  match Text.readInt64? group with
  | none => (none, t.fail .invalidNumber s.position group)
  | some _ =>
    let u := t.skip isBlank
    if u.sees Text.isDigit then (some (.number (groups + 1)), u)
    else
      -- blanks after the last group belong to no token
      (none, { u with position := t.position }.emit (if 0 < groups then .vector else .number))

/-- What a scanner does in a state: the state it goes on in, if any, and what it has become. -/
def step : State → Scanner → Option State × Scanner
  | .any, s => s.lexAny
  | .space, s => s.lexSpace
  | .number groups, s => s.lexNumber groups

/-! ### Requests -/

/-- Orders the states in which a scanner goes on without having read. -/
def State.rank : State → Nat
  | .number _ => 0
  | .any => 1
  | .space => 2

/-- A bound for the number of states that a request still goes through. -/
def ahead (q : State) (s : Scanner) : Nat := 2 * s.unread.length + q.rank

private theorem skip_spec (p : UInt8 → Bool) (s : Scanner) :
    (s.skip p).input = s.input ∧ s.position ≤ (s.skip p).position := by
  fun_induction skip p s with
  | case1 s h ih => exact ⟨ih.1, Nat.le_trans (Nat.le_add_right _ _) ih.2⟩
  | case2 s h => exact ⟨rfl, Nat.le_refl _⟩

private theorem input_acceptRun (p : UInt8 → Bool) (s : Scanner) :
    (s.acceptRun p).input = s.input := by
  fun_induction acceptRun p s with
  | case1 s h ih => exact ih
  | case2 s h => rfl

variable {q q' : State} {s s' : Scanner}

/-- A glyph that is read and taken back is as if it had not been read. -/
theorem backUp_read (s : Scanner) : s.read.backUp = { s with width := 0 } := by
  simp [read, backUp]

private theorem ahead_lt_of_lexAny (h : s.lexAny = (some q', s')) : ahead q' s' < ahead .any s := by
  unfold lexAny at h
  split at h
  · cases h
  · next g hg =>
    have hread := length_unread_read_lt hg
    dsimp only at h
    split at h
    · cases h
      simp only [ahead, State.rank]
      omega
    · split at h
      · cases h
        simp only [ahead, State.rank, backUp_read, unread]
        omega
      · repeat
          split at h
          · cases h
        cases h

private theorem ahead_lt_of_lexSpace (h : s.lexSpace = (some q', s')) :
    ahead q' s' < ahead .space s := by
  cases h
  obtain ⟨hinput, hposition⟩ := skip_spec isBlank s
  have hle := length_unread_le hinput hposition
  simp only [unread] at hle
  simp only [ahead, State.rank, unread]
  omega

private theorem ahead_lt_of_lexNumber {groups : Nat} (h : s.lexNumber groups = (some q', s')) :
    ahead q' s' < ahead (.number groups) s := by
  unfold lexNumber at h
  dsimp only at h
  split at h
  · cases h
  · next x hx =>
    split at h
    · next hsees =>
      cases h
      have hinput := input_acceptRun Text.isDigit s
      obtain ⟨hinput', hposition'⟩ := skip_spec isBlank (s.acceptRun Text.isDigit)
      -- a group that is a number is not empty, so that some of the input was read
      have hread : s.position < (s.acceptRun Text.isDigit).position := by
        refine Nat.lt_of_not_le fun hle ↦ ?_
        rw [since, Nat.sub_eq_zero_of_le hle, List.take_zero] at hx
        cases hx
      obtain ⟨g, hg, -⟩ := exists_peek?_of_sees hsees
      have hlast := length_unread_read_lt hg
      have hlength := length_unread ((s.acceptRun Text.isDigit).skip isBlank)
      rw [hinput', hinput] at hlength
      simp only [ahead, State.rank]
      rw [length_unread s]
      omega
    · cases h

/-- A state that does not end the request brings its end nearer. -/
theorem ahead_lt_of_step (h : step q s = (some q', s')) : ahead q' s' < ahead q s := by
  cases q with
  | any => exact ahead_lt_of_lexAny h
  | space => exact ahead_lt_of_lexSpace h
  | number groups => exact ahead_lt_of_lexNumber h

/-- Goes through states from a given one on until one of them ends the request. -/
def drive (q : State) (s : Scanner) : Scanner :=
  match _h : step q s with
  | (some q', s') => drive q' s'
  | (none, s') => s'
termination_by ahead q s
decreasing_by exact ahead_lt_of_step _h

/-- A scanner at the start of a request, which is answered with the end of the input unless
something else is found. -/
def asked (s : Scanner) : Scanner := { s with width := 0, token := endAt s.position }

/-- Asks for the next token (`Scanner.Next`). -/
def next (s : Scanner) : Scanner := drive .any s.asked

/-- A scanner that has been asked a number of times more. -/
def after : Scanner → (requests : Nat) → Scanner
  | s, 0 => s
  | s, n + 1 => after s.next n

end Scanner

end Token

end Ravel
