import Ravel.Text.Basic

/-!
# Glyphs

A text is read as a row of glyphs: a glyph is a character in UTF-8, or one byte that belongs to no
such character. The reading loses nothing (`Text.ofGlyphs_glyphs`).

Source: `utf8.DecodeRuneInString`.
-/

namespace Ravel

/-- One step of reading a text: a character, or a byte that belongs to no character. -/
inductive Glyph where
  | char (c : Char)
  | byte (b : UInt8)
  deriving DecidableEq, Repr

namespace Glyph

/-- The bytes that a glyph was read from. -/
def encode : Glyph → Text
  | .char c => Text.ofChar c
  | .byte b => [b]

/-- The number of bytes of a glyph. -/
def width (r : Glyph) : Nat := r.encode.length

/-- A glyph takes at least one byte. -/
theorem width_pos (r : Glyph) : 0 < r.width := by
  cases r with
  | char c => simp [width, encode, Text.ofChar, c.utf8Size_pos]
  | byte b => simp [width, encode]

/-- The character a glyph shows as; a stray byte shows as the replacement character. -/
def shown : Glyph → Char
  | .char c => c
  | .byte _ => '\ufffd'

end Glyph

namespace Text

/-- The first glyph of the text that starts with a byte and goes on with others. -/
def firstGlyph (b : UInt8) (rest : Text) : Glyph :=
  match (b :: rest.take 3).toByteArray.utf8DecodeChar? 0 with
  | some c => .char c
  | none => .byte b

/-- Reads glyphs after those already read; `skip` bytes still belong to the last of them. -/
def glyphsLoop (read : List Glyph) : (skip : Nat) → Text → List Glyph
  | _, [] => read.reverse
  | skip + 1, _ :: rest => glyphsLoop read skip rest
  | 0, b :: rest =>
    let r := firstGlyph b rest
    glyphsLoop (r :: read) (r.width - 1) rest

/-- The glyphs of a text in order. -/
def glyphs (s : Text) : List Glyph := glyphsLoop [] 0 s

/-- The text that a row of glyphs was read from. -/
def ofGlyphs (rs : List Glyph) : Text := rs.flatMap Glyph.encode

/-- The first glyph of a text is what the text starts with. -/
theorem encode_firstGlyph_isPrefix (b : UInt8) (rest : Text) :
    (firstGlyph b rest).encode <+: b :: rest := by
  cases h : (b :: rest.take 3).toByteArray.utf8DecodeChar? 0 with
  | none => exact ⟨rest, by simp [firstGlyph, h, Glyph.encode]⟩
  | some c =>
    obtain ⟨l, hl⟩ := ByteArray.exists_of_utf8DecodeChar?_eq_some h
    have hb : b :: rest.take 3 = ofChar c ++ l.data.toList := by
      simpa [ofChar] using congrArg (fun bytes => bytes.data.toList) hl
    refine ⟨l.data.toList ++ rest.drop 3, ?_⟩
    rw [firstGlyph, h]
    simp only [Glyph.encode]
    rw [← List.append_assoc, ← hb, List.cons_append, List.take_append_drop]

/-- The first glyph and what is left of the text make the text. -/
private theorem encode_firstGlyph_append (b : UInt8) (rest : Text) :
    (firstGlyph b rest).encode ++ rest.drop ((firstGlyph b rest).width - 1) = b :: rest := by
  obtain ⟨t, ht⟩ := encode_firstGlyph_isPrefix b rest
  obtain ⟨n, hn⟩ : ∃ n, (firstGlyph b rest).width = n + 1 :=
    ⟨_, (Nat.sub_add_cancel (firstGlyph b rest).width_pos).symm⟩
  have hd : rest.drop n = t := by
    have h := congrArg (List.drop (n + 1)) ht
    rw [← hn, Glyph.width, List.drop_left, ← Glyph.width, hn, List.drop_succ_cons] at h
    exact h.symm
  rw [hn, Nat.add_sub_cancel, hd, ht]

/-- Reading on adds to what was read the bytes that do not belong to it yet. -/
private theorem ofGlyphs_glyphsLoop (read : List Glyph) (skip : Nat) (s : Text) :
    ofGlyphs (glyphsLoop read skip s) = ofGlyphs read.reverse ++ s.drop skip := by
  induction s generalizing read skip with
  | nil => simp [glyphsLoop]
  | cons b rest ih =>
    cases skip with
    | succ skip => simpa [glyphsLoop] using ih read skip
    | zero =>
      rw [glyphsLoop, ih, List.drop_zero, ← encode_firstGlyph_append b rest]
      simp [ofGlyphs]

/-- Reading a text as glyphs loses nothing. -/
@[simp]
theorem ofGlyphs_glyphs (s : Text) : ofGlyphs s.glyphs = s := by
  simpa [ofGlyphs, glyphs] using ofGlyphs_glyphsLoop [] 0 s

/-- Every glyph of the text is a character, so the text is valid UTF-8. -/
def isUtf8 (s : Text) : Bool :=
  s.glyphs.all fun
    | .char _ => true
    | .byte _ => false

end Text

end Ravel
