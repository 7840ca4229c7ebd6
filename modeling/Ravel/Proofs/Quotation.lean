import Mathlib.Algebra.Group.Nat.Defs
import Ravel.Proofs.Changes
import Ravel.Proofs.Lines

/-!
# Quoted texts read back

Quoting writes a text glyph by glyph, as it stands or as an escape of one of five forms, and reading
takes the glyphs back in the same steps (`Text.unquoteLoop_quoteGlyph`). So a quoted text denotes
the text that was quoted, whichever characters count as printable, but for the line feed, which
must not stand in quotes (`Text.unquote?_quoteWith`). The command `)prompt` shows the prompt quoted.
It finds its argument by trimming and splitting its line, and as a quoted text starts and ends with
a quote, the argument is all of that text (`Settings.prompt_reads_back`).
-/

namespace Ravel

namespace Text

/-! ### Hexadecimal digits -/

private theorem length_hexDigits (width n : Nat) : (hexDigits width n).length = width := by
  induction width generalizing n with
  | zero => rfl
  | succ width ih => rw [hexDigits, List.length_append, ih, List.length_singleton]

private theorem hexValue?_hexDigit {n : Nat} (h : n < 16) : hexValue? (hexDigit n) = some n := by
  have hall : ∀ n < 16, hexValue? (hexDigit n) = some n := by decide
  exact hall n h

private theorem hexNumber?_append (s : Text) (b : UInt8) :
    hexNumber? (s ++ [b]) = do return (← hexNumber? s) * 16 + (← hexValue? b) := by
  rw [hexNumber?, List.foldl_append]
  rfl

/-- The last digits of a number read as the number, if it has no more digits. -/
private theorem hexNumber?_hexDigits {width n : Nat} (h : n < 16 ^ width) :
    hexNumber? (hexDigits width n) = some n := by
  induction width generalizing n with
  | zero =>
    obtain rfl : n = 0 := by omega
    rfl
  | succ width ih =>
    have hdiv : n / 16 < 16 ^ width := by
      rw [Nat.div_lt_iff_lt_mul (by decide)]
      exact h
    rw [hexDigits, hexNumber?_append, ih hdiv, hexValue?_hexDigit (Nat.mod_lt n (by decide))]
    exact congrArg some (Nat.div_add_mod' n 16)

/-- An escape of digits takes these digits and no more. -/
private theorem hexEscape?_hexDigits {width n : Nat} (h : n < 16 ^ width) (rest : Text) :
    hexEscape? width (hexDigits width n ++ rest) =
      if width = 2 then some [UInt8.ofNat n]
      else if n.isValidChar then some (ofChar (Char.ofNat n)) else none := by
  have hlength := length_hexDigits width n
  have hlong : ¬ (hexDigits width n ++ rest).length < width := by
    rw [List.length_append, hlength]
    omega
  rw [hexEscape?, if_neg hlong, List.take_left' hlength, hexNumber?_hexDigits h]
  rfl

/-! ### Glyph by glyph -/

variable {printable : Char → Bool} {b : UInt8} {read rest piece : Text}

private theorem unquoteLoop_skip (mark : UInt8) (read : Text) (skip : Nat) (s : Text) :
    unquoteLoop mark read skip s = unquoteLoop mark read 0 (s.drop skip) := by
  induction s generalizing skip with
  | nil => rw [List.drop_nil, unquoteLoop, unquoteLoop]
  | cons b s ih =>
    cases skip with
    | zero => rfl
    | succ skip => exact ih skip

private theorem unquoteLoop_piece {used : Nat} (hb : b ≠ 34)
    (hp : quotedPiece? 34 b rest = some (piece, used)) :
    unquoteLoop 34 read 0 (b :: rest) =
      unquoteLoop 34 (piece.reverse ++ read) 0 (rest.drop used) := by
  rw [unquoteLoop, if_neg hb, hp]
  exact unquoteLoop_skip 34 _ used rest

private theorem unquoteLoop_escape {c : UInt8} {used : Nat}
    (h : escape? 34 c rest = some (piece, used)) :
    unquoteLoop 34 read 0 (92 :: c :: rest) =
      unquoteLoop 34 (piece.reverse ++ read) 0 (rest.drop used) := by
  have hpiece : quotedPiece? 34 92 (c :: rest) = some (piece, used + 1) := by
    simp [quotedPiece?, h]
  rw [unquoteLoop_piece (by decide) hpiece, List.drop_succ_cons]

private theorem unquoteLoop_hexDigits {c : UInt8} {width n : Nat}
    (h : escape? 34 c (hexDigits width n ++ rest) = some (piece, width)) :
    unquoteLoop 34 read 0 (92 :: c :: hexDigits width n ++ rest) =
      unquoteLoop 34 (piece.reverse ++ read) 0 rest := by
  rw [List.cons_append, List.cons_append, unquoteLoop_escape h,
    List.drop_left' (length_hexDigits width n)]

private theorem unquoteLoop_hexByte {n : Nat} (h : n < 256) :
    unquoteLoop 34 read 0 (92 :: 120 :: hexDigits 2 n ++ rest) =
      unquoteLoop 34 (UInt8.ofNat n :: read) 0 rest := by
  have hlt : n < 16 ^ 2 := h
  have hescape : escape? 34 120 (hexDigits 2 n ++ rest) = some ([UInt8.ofNat n], 2) := by
    simp [escape?, hexEscape?_hexDigits hlt]
  exact unquoteLoop_hexDigits hescape

private theorem unquoteLoop_hexFour {c : Char} (h : c.toNat < 0x10000) :
    unquoteLoop 34 read 0 (92 :: 117 :: hexDigits 4 c.toNat ++ rest) =
      unquoteLoop 34 ((ofChar c).reverse ++ read) 0 rest := by
  have hvalid : c.toNat.isValidChar := c.valid
  have hlt : c.toNat < 16 ^ 4 := h
  refine unquoteLoop_hexDigits ?_
  simp [escape?, hexEscape?_hexDigits hlt, hvalid]

private theorem unquoteLoop_hexEight (c : Char) :
    unquoteLoop 34 read 0 (92 :: 85 :: hexDigits 8 c.toNat ++ rest) =
      unquoteLoop 34 ((ofChar c).reverse ++ read) 0 rest := by
  have hvalid : c.toNat.isValidChar := c.valid
  have hlt : c.toNat < 16 ^ 8 := c.val.toNat_lt
  refine unquoteLoop_hexDigits ?_
  simp [escape?, hexEscape?_hexDigits hlt, hvalid]

private theorem ofChar_of_lt {c : Char} (h : c.toNat < 128) : ofChar c = [UInt8.ofNat c.toNat] := by
  have hsize : c.utf8Size = 1 := by
    rw [Char.utf8Size_eq_one_iff, UInt32.le_iff_toNat_le]
    exact Nat.le_of_lt_succ h
  rw [ofChar, String.utf8EncodeChar_eq_singleton hsize]
  rfl

/-- A text that starts with a character has it as its first glyph. -/
private theorem firstGlyph_of_ofChar {c : Char} {bs : Text} (h : ofChar c = b :: bs) (rest : Text) :
    firstGlyph b (bs ++ rest) = .char c := by
  have hlength : bs.length ≤ 3 := by
    have hc : (ofChar c).length ≤ 4 := by
      rw [ofChar, String.length_utf8EncodeChar]
      exact c.utf8Size_le_four
    rw [h, List.length_cons] at hc
    omega
  have hstart : ofChar c <+: b :: (bs ++ rest).take 3 := by
    rw [h, List.take_append, List.take_of_length_le hlength]
    exact ⟨_, rfl⟩
  rw [firstGlyph, decode_of_isPrefix hstart]

/-- A character other than a quote, a backslash and a line feed stands for itself. -/
private theorem unquoteLoop_ofChar {c : Char} (hq : c ≠ '"') (hs : c ≠ '\\') (hn : c ≠ '\n') :
    unquoteLoop 34 read 0 (ofChar c ++ rest) =
      unquoteLoop 34 ((ofChar c).reverse ++ read) 0 rest := by
  -- its first byte is none of the three: of several bytes each is at least 128
  have hbyte (x : UInt8) (hx : x < 128) (hne : c ≠ Char.ofUInt8 x) (bs : Text) :
      ofChar c ≠ x :: bs := by
    intro h
    have hfirst := firstGlyph_of_ofChar h []
    rw [firstGlyph_of_lt hx] at hfirst
    cases hfirst
    exact hne rfl
  cases h : ofChar c with
  | nil =>
    have hpos := (Glyph.char c).width_pos
    rw [Glyph.width, Glyph.encode, h] at hpos
    cases hpos
  | cons b bs =>
    have hquote : b ≠ 34 := by rintro rfl; exact hbyte 34 (by decide) hq bs h
    have hslash : b ≠ 92 := by rintro rfl; exact hbyte 92 (by decide) hs bs h
    have hline : b ≠ 10 := by rintro rfl; exact hbyte 10 (by decide) hn bs h
    have hpiece : quotedPiece? 34 b (bs ++ rest) = some (b :: bs, bs.length) := by
      unfold quotedPiece?
      rw [if_neg hline, if_neg hslash, firstGlyph_of_ofChar h]
      simp [Glyph.shown, Glyph.width, Glyph.encode, h]
    rw [List.cons_append, unquoteLoop_piece hquote hpiece, List.drop_left]

/-- The letter of a control character denotes it after a backslash. -/
private theorem escape?_of_escapeLetter? {c : Char} {l : UInt8} (h : escapeLetter? c = some l) :
    escape? 34 l rest = some (ofChar c, 0) := by
  have hof {n : Nat} (hn : c.toNat = n) : c = Char.ofNat n := by
    rw [← hn, Char.ofNat_toNat]
  unfold escapeLetter? at h
  split at h
  case h_8 => cases h
  all_goals
    next hn =>
    cases h
    rw [hof hn]
    rfl

/-- A quoted glyph is read back as the glyph. -/
theorem unquoteLoop_quoteGlyph (hp : printable '\n' = false) (g : Glyph) :
    unquoteLoop 34 read 0 (quoteGlyph printable g ++ rest) =
      unquoteLoop 34 (g.encode.reverse ++ read) 0 rest := by
  cases g with
  | byte b =>
    rw [quoteGlyph, unquoteLoop_hexByte b.toNat_lt, UInt8.ofNat_toNat]
    rfl
  | char c =>
    -- the forms in the order in which quoting tries them
    simp only [quoteGlyph, Glyph.encode]
    split
    · next hmark =>
      have hmarks : c = '"' ∨ c = '\\' := by simpa using hmark
      rcases hmarks with rfl | rfl
      · have hquote : escape? 34 34 rest = some ([34], 0) := rfl
        exact unquoteLoop_escape hquote
      · have hslash : escape? 34 92 rest = some ([92], 0) := rfl
        exact unquoteLoop_escape hslash
    · next hmark =>
      have hmarks : c ≠ '"' ∧ c ≠ '\\' := by simpa using hmark
      split
      · next hc =>
        refine unquoteLoop_ofChar hmarks.1 hmarks.2 ?_
        rintro rfl
        rw [hp] at hc
        cases hc
      · split
        · next l hl => exact unquoteLoop_escape (escape?_of_escapeLetter? hl)
        · split
          · next hn =>
            have hlt : c.toNat < 128 := by
              simp only [Bool.or_eq_true, decide_eq_true_eq, beq_iff_eq] at hn
              omega
            rw [unquoteLoop_hexByte (by omega), ofChar_of_lt hlt]
            rfl
          · split
            · next hn => exact unquoteLoop_hexFour hn
            · exact unquoteLoop_hexEight c

/-- Quoted glyphs up to the closing quote are read back as the text of the glyphs. -/
private theorem unquoteLoop_quoteGlyphs (hp : printable '\n' = false) (gs : List Glyph)
    (read rest : Text) :
    unquoteLoop 34 read 0 (gs.flatMap (quoteGlyph printable) ++ 34 :: rest) =
      some (read.reverse ++ ofGlyphs gs, rest) := by
  induction gs generalizing read with
  | nil => simp [unquoteLoop, ofGlyphs]
  | cons g gs ih =>
    rw [List.flatMap_cons, List.append_assoc, unquoteLoop_quoteGlyph hp, ih]
    simp [ofGlyphs]

/-- Quoting is undone by reading, whichever characters other than the line feed are printable. -/
theorem unquote?_quoteWith (hp : printable '\n' = false) (s : Text) :
    unquote? (quoteWith printable s) = some s := by
  rw [quoteWith, quoteGlyphs, List.cons_append]
  simp only [unquote?, unquoteLoop_quoteGlyphs hp, List.reverse_nil, List.nil_append,
    ofGlyphs_glyphs]

/-! ### Trimming and splitting -/

/-- A byte that is a character of its own and no white space. -/
def isSolid (b : UInt8) : Bool := b < 128 && !(Glyph.char (Char.ofUInt8 b)).isSpace

variable {c : UInt8}

private theorem isSolid_iff :
    isSolid b ↔ b < 128 ∧ (Glyph.char (Char.ofUInt8 b)).isSpace = false := by
  simp [isSolid]

private theorem glyphs_cons_of_lt (hb : b < 128) (s : Text) :
    glyphs (b :: s) = .char (Char.ofUInt8 b) :: glyphs s :=
  glyphs_append_cons [] hb s

/-- Nothing is trimmed from a text with solid bytes at its two ends. -/
private theorem trim_of_isSolid (hb : isSolid b) (hc : isSolid c) (s : Text) :
    trim (b :: (s ++ [c])) = b :: (s ++ [c]) := by
  obtain ⟨hb, hfirst⟩ := isSolid_iff.mp hb
  obtain ⟨hc, hlast⟩ := isSolid_iff.mp hc
  have hglyphs : glyphs (b :: (s ++ [c])) =
      (.char (Char.ofUInt8 b) :: glyphs s) ++ [.char (Char.ofUInt8 c)] := by
    rw [glyphs_cons_of_lt hb, glyphs_append_cons s hc]
    rfl
  rw [trim, hglyphs, List.cons_append, List.dropWhile_cons_of_neg (by simpa using hfirst),
    ← List.cons_append, dropWhileEnd, List.reverse_append, List.reverse_singleton,
    List.singleton_append, List.dropWhile_cons_of_neg (by simpa using hlast), List.reverse_cons,
    List.reverse_reverse, ← hglyphs, ofGlyphs_glyphs]

private theorem trim_cons_blank (s : Text) : trim (32 :: s) = trim s := by
  have hspace : (Glyph.char (Char.ofUInt8 32)).isSpace := rfl
  rw [trim, trim, glyphs_cons_of_lt (by decide), List.dropWhile_cons_of_pos hspace]

/-- Solid bytes before a blank are a word. -/
private theorem words_append_blank {word : Text} (hw : ∀ b ∈ word, isSolid b) (hne : word ≠ [])
    (s : Text) :
    words (word ++ 32 :: s) = word :: words s := by
  have hlt : ∀ b ∈ word, b < 128 := fun b hb ↦ (isSolid_iff.mp (hw b hb)).1
  have hsolid : ∀ g ∈ word.map fun b ↦ Glyph.char (Char.ofUInt8 b), g.isSpace = false := by
    simpa using fun b hb ↦ (isSolid_iff.mp (hw b hb)).2
  rw [words, glyphs_append_of_lt hlt, glyphs_cons_of_lt (by decide),
    List.splitOnP_append_cons_of_forall_mem hsolid _ rfl,
    List.filter_cons_of_pos (by simpa using hne), List.map_cons, ofGlyphs_map_ofUInt8 hlt]
  rfl

private theorem words_ne_nil (hb : isSolid b) (s : Text) : words (b :: s) ≠ [] := by
  obtain ⟨hlt, hfirst⟩ := isSolid_iff.mp hb
  have hhead := head?_splitOnP Glyph.isSpace (glyphs (b :: s))
  rw [glyphs_cons_of_lt hlt, List.takeWhile_cons_of_pos (by simpa using hfirst)] at hhead
  obtain ⟨others, hsplit⟩ := List.head?_eq_some_iff.mp hhead
  rw [words, glyphs_cons_of_lt hlt, hsplit, List.filter_cons_of_pos (by simp), List.map_cons]
  exact List.cons_ne_nil _ _

/-- A choice of printable characters that takes those of ASCII from the blank to the tilde. -/
def PrintsAscii (printable : Char → Bool) : Prop :=
  ∀ c : Char, c.toNat < 128 → (printable c ↔ 32 ≤ c.toNat ∧ c.toNat ≤ 126)

private theorem PrintsAscii.newline (h : PrintsAscii printable) : printable '\n' = false := by
  have hnot := mt (h '\n' (by decide)).mp (by decide)
  simpa using hnot

private theorem printsAscii_isPrintable : PrintsAscii isPrintable := by
  -- only the first range has characters of ASCII
  have hranges : printableRanges = (0x20, 0x7e) :: printableRanges.tail := rfl
  have hbeyond : ∀ r ∈ printableRanges.tail, 128 ≤ r.1 := by decide +kernel
  intro c hc
  have htail : printableRanges.tail.any (fun r ↦ r.1 ≤ c.toNat && c.toNat ≤ r.2) = false := by
    rw [List.any_eq_false]
    intro r hr
    have hle := hbeyond r hr
    simp only [Bool.and_eq_true, decide_eq_true_eq]
    omega
  rw [isPrintable, hranges, List.any_cons, htail]
  simp

end Text

/-! ### The prompt -/

/-- The command for the prompt takes all of a quoted text after its name and a blank. -/
private theorem Command.read_quoted_prompt {printable : Char → Bool} (hp : printable '\n' = false)
    (prompt : Text) :
    read (Text.ofString "prompt" ++ 32 :: prompt.quoteWith printable) =
      .ok (.setPrompt prompt) := by
  have hname : ∀ b ∈ Text.ofString "prompt", Text.isSolid b := by decide +kernel
  have hquote : Text.isSolid 34 := rfl
  obtain ⟨arg, args, hargs⟩ := List.exists_cons_of_ne_nil
    (Text.words_ne_nil hquote (prompt.glyphs.flatMap (Text.quoteGlyph printable) ++ [34]))
  have hwords : (Text.ofString "prompt" ++ 32 :: prompt.quoteWith printable).words =
      Text.ofString "prompt" :: arg :: args := by
    rw [Text.words_append_blank hname (by decide), ← hargs]
    rfl
  have htrim : (Text.ofString "prompt" ++ 32 :: prompt.quoteWith printable).trim =
      Text.ofString "prompt" ++ 32 :: prompt.quoteWith printable := by
    have hp : Text.isSolid 112 := rfl
    exact Text.trim_of_isSolid hp hquote
      (Text.ofString "rompt " ++ 34 :: prompt.glyphs.flatMap (Text.quoteGlyph printable))
  refine read_prompt hwords htrim ?_
  rw [Text.trim_cons_blank, Text.quoteWith, Text.quoteGlyphs, List.cons_append,
    Text.trim_of_isSolid hquote hquote]
  exact Text.unquote?_quoteWith hp prompt

namespace Settings

open Emission

/-- The command for the prompt reads back what it shows, whichever characters beyond ASCII count as
printable. -/
theorem prompt_reads_back {printable : Char → Bool} (hp : Text.PrintsAscii printable) (s : Settings)
    (prompt : Text) (input : Option Demo.Input) :
    let shown := { s with prompt := prompt }.runLine (Text.ofString ")prompt") input
    let effect := s.runLine (Text.ofString ")prompt " ++ prompt.quoteWith printable) input
    outText shown.emissions = (prompt.quoteWith isPrintable).line ∧ Text.PrintsAscii isPrintable ∧
      effect.settings = { s with prompt := prompt } ∧ effect.status = .ok ⟨true, false⟩ ∧
      outText effect.emissions = [] ∧ ∀ report, errText report effect.emissions = [] := by
  intro shown effect
  have hshow : (Text.ofString ")prompt").trim = 41 :: Text.ofString "prompt" ∧
      Command.read (Text.ofString "prompt") = .ok .showPrompt := by
    decide +kernel
  have hline : (Text.ofString ")prompt " ++ prompt.quoteWith printable).trim =
      41 :: (Text.ofString "prompt" ++ 32 :: prompt.quoteWith printable) := by
    have hparen : Text.isSolid 41 := rfl
    have hquote : Text.isSolid 34 := rfl
    exact Text.trim_of_isSolid hparen hquote
      (Text.ofString "prompt " ++ 34 :: prompt.glyphs.flatMap (Text.quoteGlyph printable))
  have hset : effect = ⟨{ s with prompt := prompt }, [.out []], .ok ⟨true, false⟩⟩ := by
    dsimp only [effect]
    rw [runLine, Line.read_of_trim_eq hline, Command.read_quoted_prompt hp.newline]
    rfl
  refine ⟨?_, Text.printsAscii_isPrintable, ?_⟩
  · dsimp only [shown]
    rw [runLine, Line.read_of_trim_eq hshow.1, hshow.2]
    exact List.append_nil _
  · rw [hset]
    exact ⟨rfl, rfl, rfl, fun report ↦ rfl⟩

/-- A prompt with a quote, a backslash, control characters, a stray byte, a blank beyond ASCII and a
character of four bytes between blanks, where only ASCII is printable. -/
theorem prompt_reads_back_escapes :
    let ascii (c : Char) : Bool := 32 ≤ c.toNat && c.toNat ≤ 126
    let prompt : Text := [32, 34, 92, 10, 7, 0, 127, 255, 194, 160, 240, 159, 152, 128, 32]
    Text.PrintsAscii ascii ∧
    prompt.quoteWith ascii =
      Text.ofString "\" \\\"\\\\\\n\\a\\x00\\x7f\\xff\\u00a0\\U0001f600 \"" ∧
    (({} : Settings).runLine (Text.ofString ")prompt " ++ prompt.quoteWith ascii) none).settings =
      { prompt := prompt } := by
  intro ascii prompt
  have hp : Text.PrintsAscii ascii := fun c _ ↦ by simp [ascii]
  exact ⟨hp, by decide +kernel, (prompt_reads_back hp {} prompt none).2.2.1⟩

end Settings

end Ravel
