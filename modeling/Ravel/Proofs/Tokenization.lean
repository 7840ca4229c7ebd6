import Mathlib.Data.List.Chain
import Ravel.Proofs.Lexemes

/-!
# Tokens and their source

A place of a source is bad if a character starts there that no blank and no token has, or a group of
digits that is no 64-bit integer (`Token.Bad`). Scanning fails exactly on the sources with a bad
place, and it reports the leftmost one. The tokens of any other source are sections of it in their
order, with blanks and nothing else around them (`Token.Lays`).
-/

namespace Ravel

namespace Text

/-! ### Glyphs of a text -/

/-- The glyphs already read stay in front of those that are read later. -/
private theorem glyphsLoop_eq_append (read : List Glyph) (skip : Nat) (s : Text) :
    glyphsLoop read skip s = read.reverse ++ glyphsLoop [] skip s := by
  induction s generalizing read skip with
  | nil => simp [glyphsLoop]
  | cons b s ih =>
    cases skip with
    | succ skip => exact ih read skip
    | zero =>
      rw [glyphsLoop, glyphsLoop, ih, ih [_]]
      simp

private theorem glyphsLoop_skip (skip : Nat) (s : Text) :
    glyphsLoop [] skip s = glyphs (s.drop skip) := by
  induction s generalizing skip with
  | nil => simp [glyphsLoop, glyphs]
  | cons b s ih =>
    cases skip with
    | succ skip => exact ih skip
    | zero => rfl

/-- A text that is not empty is its first glyph and the glyphs after it. -/
theorem glyphs_cons (b : UInt8) (s : Text) :
    glyphs (b :: s) = firstGlyph b s :: glyphs (s.drop ((firstGlyph b s).width - 1)) := by
  rw [glyphs, glyphsLoop, glyphsLoop_eq_append, glyphsLoop_skip]
  rfl

/-- Bytes below 128 are glyphs of their own, whatever follows. -/
theorem glyphs_append_of_lt {s : Text} (hs : ∀ b ∈ s, b < 128) (t : Text) :
    glyphs (s ++ t) = (s.map fun b ↦ .char (Char.ofUInt8 b)) ++ glyphs t := by
  induction s with
  | nil => rfl
  | cons b s ih =>
    obtain ⟨hb, hrest⟩ := List.forall_mem_cons.mp hs
    have hwidth : (Glyph.char (Char.ofUInt8 b)).width = 1 := by
      rw [Glyph.width, Glyph.encode, ofChar_ofUInt8 hb, List.length_singleton]
    rw [List.cons_append, glyphs_cons, firstGlyph_of_lt hb, hwidth, Nat.sub_self, List.drop_zero,
      ih hrest]
    rfl

/-- A glyph that is a character below 128 was read from that byte. -/
theorem lt_of_firstGlyph {b : UInt8} {s : Text} {c : Char} (hg : firstGlyph b s = .char c)
    (hc : c.toNat < 128) : b < 128 := by
  have hsize : c.utf8Size = 1 := by
    rw [Char.utf8Size_eq_one_iff, UInt32.le_iff_toNat_le]
    exact Nat.le_of_lt_succ hc
  obtain ⟨t, ht⟩ := encode_firstGlyph_isPrefix b s
  rw [hg, Glyph.encode, ofChar, String.utf8EncodeChar_eq_singleton hsize] at ht
  obtain ⟨rfl, -⟩ := List.cons.inj ht
  rw [UInt8.lt_iff_toNat_lt, UInt32.toNat_toUInt8]
  exact Nat.lt_of_le_of_lt (Nat.mod_le _ _) hc

end Text

/-- The characters that blanks and tokens are made of. -/
def Glyph.isLexical : Glyph → Bool
  | .char c =>
    c.isDigit ||
      [' ', '\t', '\r', '\n', '+', '-', '~', '#', '\x7b', ',', '<', '(', ')'].contains c
  | .byte _ => false

/-- An error a number of bytes further on. -/
def ScanError.moved (n : Nat) (e : ScanError) : ScanError := { e with offset := n + e.offset }

namespace Token

/-- The bytes that tokens are made of are ASCII. -/
theorem lt_of_isLexical {b : UInt8} (h : isLexical b) : b < 128 := by
  have hall : ∀ n : Fin 256, isLexical (UInt8.ofFin n) → UInt8.ofFin n < 128 := by
    decide +kernel
  exact hall b.toFin h

/-- The characters that blanks and tokens are made of are single bytes. -/
private theorem isLexical_firstGlyph (b : UInt8) (s : Text) :
    (Text.firstGlyph b s).isLexical = isLexical b := by
  by_cases hb : b < 128
  · have hall : ∀ n : Fin 256, UInt8.ofFin n < 128 →
        (Glyph.char (Char.ofUInt8 (UInt8.ofFin n))).isLexical = isLexical (UInt8.ofFin n) := by
      decide +kernel
    rw [Text.firstGlyph_of_lt hb]
    exact hall b.toFin hb
  · have hbyte : isLexical b = false := by
      by_contra h
      exact hb (lt_of_isLexical (by simpa using h))
    rw [hbyte]
    cases hg : Text.firstGlyph b s with
    | byte c => rfl
    | char c =>
      by_contra h
      have hlt : c.val.toNat < 128 := by
        simp only [Glyph.isLexical, Bool.not_eq_false, Bool.or_eq_true, List.contains_iff_mem,
          Char.isDigit, Bool.and_eq_true, decide_eq_true_eq, UInt32.le_iff_toNat_le] at h
        rcases h with ⟨-, h⟩ | h
        · exact Nat.lt_of_le_of_lt h (by decide)
        · have hall : [' ', '\t', '\r', '\n', '+', '-', '~', '#', '\x7b', ',', '<', '(', ')'].all
              (fun c ↦ decide (c.val.toNat < 128)) = true := rfl
          exact of_decide_eq_true (List.all_eq_true.mp hall c h)
      exact hb (Text.lt_of_firstGlyph hg hlt)

/-! ### Bad places -/

/-- The bad places of a source, as the errors that report them: a character that no blank and no
token has, and a group of digits, as long as it can be, that is beyond the 64-bit integers. -/
inductive Bad (source : Text) : ScanError → Prop where
  | character {before after : List Glyph} {g : Glyph} (hs : source.glyphs = before ++ g :: after)
      (hg : g.isLexical = false) :
      Bad source ⟨.unrecognizedCharacter, (Text.ofGlyphs before).length, g.encode⟩
  | number {before group after : Text} (hs : source = before ++ group ++ after)
      (hd : group.Digits) (hl : Text.Apart before group) (hr : Text.Apart group after)
      (hv : 0x7fffffffffffffff < Text.digitsValue group) :
      Bad source ⟨.invalidNumber, before.length, group⟩

variable {s t : Text} {e : ScanError}

private theorem isOversize_iff {group : Text} :
    isOversize group = true ↔ 0x7fffffffffffffff < Text.digitsValue group := by
  rw [isOversize, decide_eq_true_eq]
  omega

/-- A text that has no bad place, whatever follows it. -/
structure Harmless (s : Text) : Prop where
  lexical : ∀ b ∈ s, isLexical b
  fits : ∀ g ∈ s.numerals, isOversize g = false

private theorem Harmless.glyphs_append (hs : Harmless s) (t : Text) :
    Text.glyphs (s ++ t) = (s.map fun b ↦ .char (Char.ofUInt8 b)) ++ t.glyphs :=
  Text.glyphs_append_of_lt (fun b hb ↦ lt_of_isLexical (hs.lexical b hb)) t

private theorem Harmless.length_ofGlyphs_append (hs : Harmless s) (gs : List Glyph) :
    (Text.ofGlyphs ((s.map fun b ↦ .char (Char.ofUInt8 b)) ++ gs)).length =
      s.length + (Text.ofGlyphs gs).length := by
  have hbytes := Text.ofGlyphs_map_ofUInt8 fun b hb ↦ lt_of_isLexical (hs.lexical b hb)
  rw [Text.ofGlyphs, List.flatMap_append, List.length_append]
  congr 1
  exact congrArg List.length hbytes

/-- The bad places of a text after a harmless one are bad places of the two together. -/
private theorem Bad.append_left (hs : Harmless s) (ha : Text.Apart s t) (h : Bad t e) :
    Bad (s ++ t) (e.moved s.length) := by
  cases h with
  | @character before after g hg hl =>
    rw [ScanError.moved, ← hs.length_ofGlyphs_append]
    have hglyphs : Text.glyphs (s ++ t) =
        ((s.map fun b ↦ .char (Char.ofUInt8 b)) ++ before) ++ g :: after := by
      rw [hs.glyphs_append, hg, List.append_assoc]
    exact .character hglyphs hl
  | @number before group after hsplit hd hl hr hv =>
    rw [ScanError.moved, ← List.length_append]
    have hsource : s ++ t = (s ++ before) ++ group ++ after := by
      rw [hsplit]
      simp only [List.append_assoc]
    exact .number hsource hd (hl.append_left (hsplit ▸ ha) hd.nonempty) hr hv

/-- A group of digits in two texts that are apart belongs to one of them. -/
theorem group_of_append {before group after : Text} (ha : Text.Apart s t) (hd : group.Digits)
    (h : s ++ t = before ++ group ++ after) :
    (∃ u, before = s ++ u ∧ t = u ++ group ++ after) ∨
      ∃ u, s = before ++ group ++ u ∧ after = u ++ t := by
  rw [List.append_assoc] at h
  rcases List.append_eq_append_iff.mp h with ⟨u, hb, ht⟩ | ⟨u, hs, hu⟩
  · exact .inl ⟨u, hb, by rw [ht, List.append_assoc]⟩
  · rcases List.append_eq_append_iff.mp hu with ⟨v, hv, hx⟩ | ⟨v, hg, hx⟩
    · exact .inr ⟨v, by rw [hs, hv, List.append_assoc], hx⟩
    · by_cases hu0 : u = []
      · subst hu0
        rw [List.append_nil] at hs
        exact .inl ⟨[], by simpa using hs.symm, by rw [hx, hg]; simp⟩
      · by_cases hv0 : v = []
        · subst hv0
          rw [List.append_nil] at hg
          exact .inr ⟨[], by rw [hs, hg]; simp, hx.symm⟩
        · -- the group would end the first text and start the second
          have hdu : Text.Digits u := ⟨hu0, fun b hb ↦ hd.isDigit b (by simp [hg, hb])⟩
          have hdv : Text.Digits v := ⟨hv0, fun b hb ↦ hd.isDigit b (by simp [hg, hb])⟩
          have hapart : Text.Apart u v := by
            have hlast : u.getLast? = s.getLast? := by
              rw [hs, List.getLast?_append_of_ne_nil before hu0]
            have hhead : v.head? = t.head? := by
              rw [hx, List.head?_append_of_ne_nil v hv0]
            exact (ha.of_getLast? hlast).of_head? hhead
          have hb := hdv.isDigit _ (List.head_mem hv0)
          rw [hapart.head?_of_digits hdu _ (List.head_mem_head? hv0)] at hb
          cases hb

/-- Two texts that are apart, the first of them harmless, have no other bad places than those of the
second. -/
private theorem Bad.of_append (hs : Harmless s) (ha : Text.Apart s t) (h : Bad (s ++ t) e) :
    ∃ x, Bad t x ∧ e = x.moved s.length := by
  cases h with
  | @character before after g hg hl =>
    rw [hs.glyphs_append] at hg
    have hin : ∀ u, (s.map fun b ↦ Glyph.char (Char.ofUInt8 b)) ≠ before ++ g :: u := by
      intro u hu
      have hmem : g ∈ s.map fun b ↦ Glyph.char (Char.ofUInt8 b) := by simp [hu]
      obtain ⟨b, hb, rfl⟩ := List.mem_map.mp hmem
      have hlex := hs.lexical b hb
      have hfirst := isLexical_firstGlyph b []
      rw [Text.firstGlyph_of_lt (lt_of_isLexical hlex), hl, hlex] at hfirst
      cases hfirst
    rcases List.append_eq_append_iff.mp hg with ⟨u, hb, ht⟩ | ⟨u, hb, ht⟩
    · subst hb
      exact ⟨_, .character ht hl, by rw [ScanError.moved, hs.length_ofGlyphs_append]⟩
    · cases u with
      | nil =>
        have hglyphs : t.glyphs = [] ++ g :: after := ht.symm
        refine ⟨_, .character hglyphs hl, ?_⟩
        rw [ScanError.moved, ← hs.length_ofGlyphs_append, hb, List.append_nil, List.append_nil]
      | cons c u =>
        obtain ⟨rfl, -⟩ := List.cons.inj ht
        exact absurd hb (hin u)
  | @number before group after hsplit hd hl hr hv =>
    rcases group_of_append ha hd hsplit with ⟨u, rfl, ht⟩ | ⟨u, hx, rfl⟩
    · refine ⟨_, .number ht hd ?_ hr hv, by rw [ScanError.moved, List.length_append]⟩
      by_cases hu : u = []
      · subst hu
        exact Text.apart_nil_left group
      · exact hl.of_getLast? (List.getLast?_append_of_ne_nil s hu).symm
    · -- the group is a numeral of the harmless text
      have hru : Text.Apart group u := by
        by_cases hu : u = []
        · subst hu
          exact Text.apart_nil_right group
        · exact hr.of_head? (List.head?_append_of_ne_nil u hu).symm
      have hfits := hs.fits group (hx ▸ hd.mem_numerals hl hru)
      rw [isOversize_iff.mpr hv] at hfits
      cases hfits

/-- A bad place with none before it, and no other at the same place. -/
structure Leftmost (s : Text) (e : ScanError) : Prop where
  bad : Bad s e
  first : ∀ x, Bad s x → x = e ∨ e.offset < x.offset

/-- What a scan from an offset should report of a text: its leftmost bad place, if it has one. -/
def Reports (offset : Nat) (s : Text) : Option ScanError → Prop
  | none => ∀ x, ¬ Bad s x
  | some x => ∃ e, Leftmost s e ∧ x = e.moved offset

/-- A harmless text in front changes nothing but the offset. -/
private theorem Reports.append_left {offset : Nat} {r : Option ScanError}
    (h : Reports (offset + s.length) t r) (hs : Harmless s) (ha : Text.Apart s t) :
    Reports offset (s ++ t) r := by
  cases r with
  | none =>
    intro x hx
    obtain ⟨y, hy, -⟩ := hx.of_append hs ha
    exact h y hy
  | some x =>
    obtain ⟨e, he, rfl⟩ := h
    refine ⟨e.moved s.length, ⟨he.bad.append_left hs ha, ?_⟩, ?_⟩
    · intro y hy
      obtain ⟨z, hz, rfl⟩ := hy.of_append hs ha
      rcases he.first z hz with rfl | hlt
      · exact .inl rfl
      · exact .inr (Nat.add_lt_add_left hlt s.length)
    · simp [ScanError.moved, Nat.add_assoc]

private theorem leftmost_of_offset_eq_zero (h : Bad s e) (h0 : e.offset = 0)
    (hunique : ∀ x, Bad s x → x.offset = 0 → x = e) : Leftmost s e := by
  refine ⟨h, ?_⟩
  intro x hx
  by_cases hx0 : x.offset = 0
  · exact .inl (hunique x hx hx0)
  · exact .inr (by omega)

/-- A bad place at the start of a text is its first glyph, or its first group of digits. -/
private theorem Bad.of_offset_eq_zero (h : Bad s e) (h0 : e.offset = 0) :
    (∃ b t, s = b :: t ∧ isLexical b = false ∧
      e = ⟨.unrecognizedCharacter, 0, (Text.firstGlyph b t).encode⟩) ∨
    ∃ group after, s = group ++ after ∧ group.Digits ∧ Text.Apart group after ∧
      isOversize group ∧ e = ⟨.invalidNumber, 0, group⟩ := by
  cases h with
  | @character before after g hg hl =>
    left
    have hbefore : before = [] := by
      cases before with
      | nil => rfl
      | cons c before =>
        have hpos := c.width_pos
        simp only [Text.ofGlyphs, List.flatMap_cons, List.length_append] at h0
        rw [Glyph.width] at hpos
        omega
    subst hbefore
    cases s with
    | nil => cases hg
    | cons b t =>
      rw [Text.glyphs_cons] at hg
      obtain ⟨rfl, -⟩ := List.cons.inj hg
      exact ⟨b, t, rfl, by rw [← isLexical_firstGlyph b t, hl], rfl⟩
  | @number before group after hsplit hd hl hr hv =>
    right
    have hbefore : before = [] := List.eq_nil_of_length_eq_zero h0
    subst hbefore
    exact ⟨group, after, hsplit, hd, hr, isOversize_iff.mpr hv, rfl⟩

/-- The first character of a text is bad if no blank and no token has it. -/
private theorem leftmost_of_isLexical_eq_false {b : UInt8} (hb : isLexical b = false) (s : Text) :
    Leftmost (b :: s) ⟨.unrecognizedCharacter, 0, (Text.firstGlyph b s).encode⟩ := by
  have hglyphs : Text.glyphs (b :: s) = [] ++ Text.firstGlyph b s :: _ := Text.glyphs_cons b s
  apply leftmost_of_offset_eq_zero
  · exact .character hglyphs (by rw [isLexical_firstGlyph, hb])
  · rfl
  · intro x hx h0
    rcases hx.of_offset_eq_zero h0 with ⟨c, t, hs, -, rfl⟩ | ⟨group, after, hs, hd, -⟩
    · cases hs
      rfl
    · cases group with
      | nil => exact absurd rfl hd.nonempty
      | cons c group =>
        cases hs
        have hdigit := hd.isDigit b List.mem_cons_self
        simp [isLexical, hdigit] at hb

/-- A group of digits beyond the 64-bit integers is bad. -/
private theorem leftmost_of_isOversize {group after : Text} (hd : group.Digits)
    (hr : Text.Apart group after) (ho : isOversize group) :
    Leftmost (group ++ after) ⟨.invalidNumber, 0, group⟩ := by
  have hsplit : group ++ after = [] ++ group ++ after := rfl
  apply leftmost_of_offset_eq_zero
  · exact .number hsplit hd (Text.apart_nil_left group) hr (isOversize_iff.mp ho)
  · rfl
  · intro x hx h0
    rcases hx.of_offset_eq_zero h0 with ⟨b, t, hs, hb, -⟩ | ⟨group', after', hs, hd', hr', -, rfl⟩
    · obtain ⟨c, group, rfl⟩ := List.exists_cons_of_ne_nil hd.nonempty
      cases hs
      have hdigit := hd.isDigit b List.mem_cons_self
      simp [isLexical, hdigit] at hb
    · rw [hd.eq_of_append_eq hd' hr hr' hs]

private theorem isLexical_of_isDigitOrBlank {b : UInt8} (h : isDigitOrBlank b) : isLexical b := by
  rw [isDigitOrBlank, Bool.or_eq_true] at h
  rcases h with h | h <;> simp [isLexical, h]

private theorem harmless_singleton {b : UInt8} (hb : isLexical b) (hd : Text.isDigit b = false) :
    Harmless [b] := by
  refine ⟨by simpa using hb, ?_⟩
  rw [Text.numerals_cons hd, Text.numerals_nil]
  simp

/-- A mark is a byte that tokens are made of. -/
theorem Mark.isLexical_eq_true {kind : TokenKind} {b : UInt8} (h : Mark kind b) : isLexical b := by
  cases h with
  | verb hb => simp [isLexical, isVerb, hb]
  | leftParen => rfl
  | rightParen => rfl

/-- A scan reports the leftmost bad place of its text. -/
theorem Scans.reports {offset : Nat} {r : Scan} (h : Scans offset s r) :
    Reports offset s r.error := by
  induction h with
  | done offset =>
    intro x hx
    cases hx with
    | @character before after g hg hl => simp [Text.glyphs, Text.glyphsLoop] at hg
    | @number before group after hsplit hd hl hr hv => simp [hd.nonempty] at hsplit
  | @blank offset b s r hb h ih =>
    have hd := isDigit_of_isBlank hb
    exact ih.append_left (harmless_singleton (by simp [isLexical, hb]) hd)
      (Text.apart_singleton_left hd s)
  | @mark offset kind b s r hb h ih =>
    have hd := hb.isDigit_eq_false
    exact ih.append_left (harmless_singleton hb.isLexical_eq_true hd)
      (Text.apart_singleton_left hd s)
  | @literal offset gs run rest r hrow hfits hc h ih =>
    refine ih.append_left ⟨?_, hrow.numerals_eq ▸ hfits⟩ (.inr hc.isDigit_head)
    exact fun b hb ↦ isLexical_of_isDigitOrBlank (hrow.isDigitOrBlank b hb)
  | @oversize offset before group after hb h =>
    have hharmless : Harmless before :=
      ⟨fun b hm ↦ isLexical_of_isDigitOrBlank (hb b hm), h.fits⟩
    have hreports : Reports (offset + before.length) (group ++ after)
        (some ⟨.invalidNumber, offset + before.length, group⟩) :=
      ⟨_, leftmost_of_isOversize h.digits h.right h.oversize, rfl⟩
    rw [List.append_assoc]
    exact hreports.append_left hharmless
      (h.left.of_head? (List.head?_append_of_ne_nil group h.digits.nonempty))
  | @unknown offset b s hb => exact ⟨_, leftmost_of_isLexical_eq_false hb s, rfl⟩

/-! ### Tokens in their source -/

/-- What a token of a kind and a text is, between the bytes before it and those after it: a verb or
a parenthesis of one byte; a number, one group of digits that is as long as it can be; or a vector,
two or more such groups with blanks between them. -/
inductive Stands (before after : Text) : TokenKind → Text → Prop where
  | mark {kind : TokenKind} {b : UInt8} (hb : Mark kind b) : Stands before after kind [b]
  | number {group : Text} (hd : group.Digits) (hl : Text.Apart before group)
      (hr : Text.Apart group after) : Stands before after .number group
  | vector {gs : List Text} {row : Text} (h : Row gs row) (h2 : 2 ≤ gs.length)
      (hl : Text.Apart before row) (hr : Text.Apart row after) : Stands before after .vector row

variable {kind : TokenKind} {text before after : Text}

/-- A token that stands in a source has a byte at least. -/
theorem Stands.nonempty (h : Stands before after kind text) : text ≠ [] := by
  cases h with
  | mark hb => simp
  | number hd hl hr => exact hd.nonempty
  | vector h h2 hl hr => exact h.nonempty

private theorem Stands.append_left (h : Stands before after kind text)
    (hs : Text.Apart s (before ++ text ++ after)) : Stands (s ++ before) after kind text := by
  cases h with
  | mark hb => exact .mark hb
  | number hd hl hr => exact .number hd (hl.append_left hs hd.nonempty) hr
  | vector h h2 hl hr => exact .vector h h2 (hl.append_left hs h.nonempty) hr

/-- A place of a source that belongs to a token. -/
def Covers (t : Token) (i : Nat) : Prop := t.offset ≤ i ∧ (i : Int) < t.offset + t.text.length

/-- The tokens of a text that starts at an offset of a source. Each is a section of the text at its
offset, they follow each other without overlapping, all bytes outside of them are blanks, and no two
literals come one after the other. -/
structure Lays (offset : Nat) (s : Text) (ts : List Token) : Prop where
  sections : ∀ t ∈ ts, ∃ before after, s = before ++ t.text ++ after ∧
    t.offset = (offset + before.length : Nat) ∧ Stands before after t.kind t.text
  ordered : ts.Pairwise fun t u : Token ↦
    t.offset < u.offset ∧ t.offset + t.text.length ≤ u.offset
  blanks : ∀ i b, s[i]? = some b → (∀ t ∈ ts, ¬ t.Covers (offset + i)) → isBlank b
  literals : ts.IsChain fun t u ↦ ¬ (t.isLiteral ∧ u.isLiteral)

/-- A blank in front belongs to no token. -/
private theorem Lays.cons_blank {offset : Nat} {b : UInt8} {ts : List Token}
    (h : Lays (offset + 1) s ts) (hb : isBlank b) : Lays offset (b :: s) ts := by
  refine ⟨?_, h.ordered, ?_, h.literals⟩
  · intro t ht
    obtain ⟨before, after, rfl, ho, hstands⟩ := h.sections t ht
    refine ⟨b :: before, after, rfl, ?_, ?_⟩
    · rw [ho, List.length_cons]
      omega
    · exact hstands.append_left (s := [b]) (Text.apart_singleton_left (isDigit_of_isBlank hb) _)
  · intro i c hc hout
    cases i with
    | zero =>
      cases hc
      exact hb
    | succ i =>
      refine h.blanks i c hc ?_
      intro t ht
      rw [Nat.add_assoc, Nat.add_comm 1]
      exact hout t ht

/-- A token in front, which what follows does not prolong. -/
private theorem Lays.cons_token {offset : Nat} {ts : List Token}
    (h : Lays (offset + text.length) s ts) (hx : Stands [] s kind text) (ha : Text.Apart text s)
    (hl : Token.isLiteral ⟨kind, offset, text⟩ → ∀ u ∈ ts.head?, u.isLiteral = false) :
    Lays offset (text ++ s) (⟨kind, offset, text⟩ :: ts) := by
  have hlater (u : Token) (hu : u ∈ ts) : (offset + text.length : Nat) ≤ u.offset := by
    obtain ⟨before, after, -, ho, -⟩ := h.sections u hu
    rw [ho]
    omega
  have hpos := List.length_pos_iff.mpr hx.nonempty
  refine ⟨?sections, ?ordered, ?blanks, ?literals⟩
  case sections =>
    refine List.forall_mem_cons.mpr ⟨⟨[], s, rfl, rfl, hx⟩, ?_⟩
    intro t ht
    obtain ⟨before, after, hs, ho, hstands⟩ := h.sections t ht
    refine ⟨text ++ before, after, ?_, ?_, ?_⟩
    · rw [hs]
      simp only [List.append_assoc]
    · rw [ho, List.length_append]
      omega
    · exact hstands.append_left (hs ▸ ha)
  case ordered =>
    refine List.pairwise_cons.mpr ⟨?_, h.ordered⟩
    intro u hu
    have := hlater u hu
    dsimp only
    omega
  case blanks =>
    intro i c hc hout
    obtain ⟨hfirst, hrest⟩ := List.forall_mem_cons.mp hout
    have hi : text.length ≤ i := by
      by_contra hlt
      apply hfirst
      simp only [Covers]
      omega
    rw [List.getElem?_append_right hi] at hc
    refine h.blanks _ c hc ?_
    intro t ht
    rw [Nat.add_assoc, Nat.add_sub_cancel' hi]
    exact hrest t ht
  case literals =>
    refine h.literals.cons ?_
    rintro u hu ⟨ht, hlit⟩
    rw [hl ht u hu] at hlit
    cases hlit

/-- The first token of a closed text is no literal. -/
private theorem Scans.head_not_literal {offset : Nat} {r : Scan} (h : Scans offset s r)
    (hc : Closed s) :
    ∀ t ∈ r.tokens.head?, t.isLiteral = false := by
  induction h with
  | done offset => simp
  | blank hb h ih => exact ih (hc.of_cons_blank hb)
  | @mark offset kind b s r hb h ih =>
    rintro _ ⟨⟩
    cases hb with
    | verb hb => rfl
    | leftParen => rfl
    | rightParen => rfl
  | @literal offset gs run rest r hrow hfits hcl h ih =>
    obtain ⟨b, run', rfl⟩ := List.exists_cons_of_ne_nil hrow.nonempty
    have hb := hrow.isDigit_head b rfl
    rw [hc.isDigit_head b rfl] at hb
    cases hb
  | oversize hb h => simp
  | unknown hb => simp

/-- The tokens of a scan that ends without an error are the tokens of its text. -/
theorem Scans.lays {offset : Nat} {r : Scan} (h : Scans offset s r) (he : r.error = none) :
    Lays offset s r.tokens := by
  induction h with
  | done offset => exact ⟨by simp, .nil, by simp, .nil⟩
  | blank hb h ih => exact (ih he).cons_blank hb
  | @mark offset kind b s r hb h ih =>
    refine (ih he).cons_token (.mark hb) (Text.apart_singleton_left hb.isDigit_eq_false s) ?_
    intro hlit
    cases hb <;> cases hlit
  | @literal offset gs run rest r hrow hfits hc h ih =>
    have hapart : Text.Apart run rest := .inr hc.isDigit_head
    refine (ih he).cons_token ?_ hapart fun _ ↦ h.head_not_literal hc
    by_cases h2 : 1 < gs.length
    · rw [if_pos h2]
      exact .vector hrow h2 (Text.apart_nil_left run) hapart
    · rw [if_neg h2]
      cases hrow with
      | one hg => exact .number hg (Text.apart_nil_left run) hapart
      | more hg hgap hrow =>
        have := List.length_pos_iff.mpr hrow.groups_ne_nil
        rw [List.length_cons] at h2
        omega
  | oversize hb h => cases he
  | unknown hb => cases he

/-- A source has tokens, which leave out only blanks, exactly if it has no bad place, and its error
is the leftmost one otherwise. -/
theorem tokenize_lossless (source : Text) :
    ((∃ tokens, tokenize source = .ok tokens) ↔ ∀ e, ¬ Bad source e) ∧
    (∀ e, tokenize source = .error e ↔
      Bad source e ∧ ∀ x, Bad source x → e.offset ≤ x.offset) ∧
    ∀ tokens, tokenize source = .ok tokens → Lays 0 source tokens := by
  have hscans : Scans 0 source (scan source) := scans_scanFrom 0 source
  have hreports := hscans.reports
  have hlays := hscans.lays
  unfold tokenize
  generalize scan source = r at hreports hlays
  obtain ⟨tokens, error⟩ := r
  cases error with
  | none =>
    refine ⟨⟨fun _ ↦ hreports, fun _ ↦ ⟨tokens, rfl⟩⟩, ?_, ?_⟩
    · intro e
      exact ⟨nofun, fun h ↦ absurd h.1 (hreports e)⟩
    · rintro _ ⟨⟩
      exact hlays rfl
  | some x =>
    obtain ⟨e, he, rfl⟩ := hreports
    have hmoved : e.moved 0 = e := by simp [ScanError.moved]
    dsimp only
    rw [hmoved]
    refine ⟨⟨nofun, fun h ↦ absurd he.bad (h e)⟩, ?_, nofun⟩
    intro y
    constructor
    · rintro ⟨⟩
      refine ⟨he.bad, ?_⟩
      intro z hz
      rcases he.first z hz with rfl | hlt
      · exact Nat.le_refl _
      · exact Nat.le_of_lt hlt
    · rintro ⟨hy, hle⟩
      rcases he.first y hy with rfl | hlt
      · rfl
      · exact absurd (hle e he.bad) (Nat.not_le.mpr hlt)

end Token

end Ravel
