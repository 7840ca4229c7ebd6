import Ravel.Noun.Basic
import Ravel.Proofs.Scan

/-!
# The nouns of literals

A literal is cut into numbers twice: the scan finds its digit groups, and reading it as a noun finds
its words between white space. On a number run the two agree (`words_eq_digitGroups`), so that a
literal has as many elements as the scan finds integers in it.
-/

namespace Ravel

namespace Text

/-! ### Glyphs of one byte -/

/-- A character below 128 is one byte. -/
theorem ofChar_ofUInt8 {b : UInt8} (h : b < 128) : ofChar (Char.ofUInt8 b) = [b] := by
  have hb : b.toNat < 128 := UInt8.lt_iff_toNat_lt.mp h
  have hval : (Char.ofUInt8 b).val = b.toUInt32 := rfl
  have hs : (Char.ofUInt8 b).utf8Size = 1 := by
    rw [Char.utf8Size_eq_one_iff, UInt32.le_iff_toNat_le, hval, UInt8.toNat_toUInt32]
    exact Nat.le_of_lt_succ hb
  rw [ofChar, String.utf8EncodeChar_eq_singleton hs, hval]
  simp

/-- A byte below 128 is a glyph of its own, whatever follows. -/
theorem firstGlyph_of_lt {b : UInt8} (h : b < 128) (rest : Text) :
    firstGlyph b rest = .char (Char.ofUInt8 b) := by
  have hd : (b :: rest.take 3).toByteArray.utf8DecodeChar? 0 = some (Char.ofUInt8 b) := by
    have hc : (b :: rest.take 3).toByteArray =
        (String.utf8EncodeChar (Char.ofUInt8 b)).toByteArray ++ (rest.take 3).toByteArray := by
      have ho := ofChar_ofUInt8 h
      rw [ofChar] at ho
      rw [ho, ← List.toByteArray_append, List.singleton_append]
    rw [hc]
    exact ByteArray.utf8DecodeChar?_utf8EncodeChar_append
  rw [firstGlyph, hd]

/-- The glyphs of bytes below 128 are their characters. -/
private theorem glyphs_of_lt {s : Text} (h : ∀ b ∈ s, b < 128) :
    s.glyphs = s.map fun b ↦ .char (Char.ofUInt8 b) := by
  have hloop (read : List Glyph) :
      glyphsLoop read 0 s = read.reverse ++ s.map fun b ↦ .char (Char.ofUInt8 b) := by
    induction s generalizing read with
    | nil => rw [glyphsLoop, List.map_nil, List.append_nil]
    | cons b s ih =>
      have hb := h b List.mem_cons_self
      have hw : (Glyph.char (Char.ofUInt8 b)).width = 1 := by
        rw [Glyph.width, Glyph.encode, ofChar_ofUInt8 hb, List.length_singleton]
      rw [glyphsLoop, firstGlyph_of_lt hb, hw, ih fun c hc ↦ h c (List.mem_cons_of_mem b hc),
        List.reverse_cons, List.append_assoc, List.singleton_append, List.map_cons]
  exact hloop []

/-- The text of characters below 128 is their bytes. -/
theorem ofGlyphs_map_ofUInt8 {s : Text} (h : ∀ b ∈ s, b < 128) :
    ofGlyphs (s.map fun b ↦ .char (Char.ofUInt8 b)) = s := by
  rw [← glyphs_of_lt h, ofGlyphs_glyphs]

end Text

namespace Token

/-! ### Digit groups and words -/

private theorem isSpace_of_isDigitOrBlank {b : UInt8} (h : isDigitOrBlank b) :
    b < 128 ∧ Glyph.isSpace (.char (Char.ofUInt8 b)) = !Text.isDigit b := by
  have hall : ∀ n : Fin 256, isDigitOrBlank (UInt8.ofFin n) → UInt8.ofFin n < 128 ∧
      Glyph.isSpace (.char (Char.ofUInt8 (UInt8.ofFin n))) = !Text.isDigit (UInt8.ofFin n) := by
    decide +kernel
  exact hall b.toFin h

/-- The digit groups of a text are what splitting it at the other bytes leaves. -/
theorem map_snd_groupsLoop {found : List (Nat × Text)} {current : Text} {position : Nat} {s : Text}
    (hc : ∀ b ∈ current.reverse, (!Text.isDigit b) = false) :
    (groupsLoop found current position s).map Prod.snd =
      (found.map Prod.snd).reverse ++
        ((current.reverse ++ s).splitOnP fun b ↦ !Text.isDigit b).filter (!·.isEmpty) := by
  induction s generalizing found current position with
  | nil =>
    rw [groupsLoop, List.append_nil, List.splitOnP_eq_singleton hc]
    cases current with
    | nil => simp
    | cons b current => simp
  | cons b s ih =>
    rw [groupsLoop]
    by_cases hd : Text.isDigit b
    · have hcb : ∀ c ∈ (b :: current).reverse, (!Text.isDigit c) = false := by
        intro c hm
        rw [List.reverse_cons] at hm
        rcases List.mem_append.mp hm with hm | hm
        · exact hc c hm
        · rw [List.mem_singleton.mp hm, hd, Bool.not_true]
      rw [if_pos hd, ih hcb, List.reverse_cons, List.append_assoc, List.singleton_append]
    · have hnil : ∀ c ∈ ([] : Text).reverse, (!Text.isDigit c) = false :=
        fun c hm ↦ absurd hm List.not_mem_nil
      rw [if_neg hd, List.splitOnP_append_cons_of_forall_mem hc b (by simp [hd])]
      cases current with
      | nil => simp [ih hnil]
      | cons c current => simp [ih hnil]

/-- Splitting commutes with replacing the members. -/
private theorem splitOnP_map {α β : Type} {f : α → β} {p : α → Bool} {q : β → Bool} {s : List α}
    (h : ∀ x ∈ s, q (f x) = p x) :
    (s.map f).splitOnP q = (s.splitOnP p).map (List.map f) := by
  induction s with
  | nil => rfl
  | cons x s ih =>
    rw [List.map_cons, List.splitOnP_cons_eq_if_modifyHead, List.splitOnP_cons_eq_if_modifyHead,
      h x List.mem_cons_self, ih fun y hy ↦ h y (List.mem_cons_of_mem x hy)]
    cases p x with
    | true => rfl
    | false => cases s.splitOnP p <;> rfl

/-- What splitting leaves is made of the members that it is not split at. -/
theorem mem_of_mem_splitOnP {α : Type} {p : α → Bool} {s group : List α} {x : α}
    (hg : group ∈ s.splitOnP p) (hx : x ∈ group) : x ∈ s ∧ p x = false := by
  induction s generalizing group with
  | nil =>
    rw [List.splitOnP_nil, List.mem_singleton] at hg
    rw [hg] at hx
    exact absurd hx List.not_mem_nil
  | cons y s ih =>
    have hlater {group : List α} (hg : group ∈ s.splitOnP p) (hx : x ∈ group) :
        x ∈ y :: s ∧ p x = false :=
      ⟨List.mem_cons_of_mem y (ih hg hx).1, (ih hg hx).2⟩
    rw [List.splitOnP_cons_eq_if_modifyHead] at hg
    obtain ⟨first, others, hsplit⟩ := List.exists_cons_of_ne_nil (List.splitOnP_ne_nil p s)
    rw [hsplit] at hg hlater
    split at hg
    · rcases List.mem_cons.mp hg with rfl | hg
      · exact absurd hx List.not_mem_nil
      · exact hlater hg hx
    · next hy =>
      rcases List.mem_cons.mp hg with rfl | hg
      · rcases List.mem_cons.mp hx with rfl | hx
        · exact ⟨List.mem_cons_self, by simpa using hy⟩
        · exact hlater List.mem_cons_self hx
      · exact hlater (List.mem_cons_of_mem first hg) hx

/-- The words of a number run are its digit groups. -/
theorem words_eq_digitGroups {s : Text} (hs : ∀ b ∈ s, isDigitOrBlank b) :
    s.words = (digitGroups s).map Prod.snd := by
  have hlt : ∀ b ∈ s, b < 128 := fun b hb ↦ (isSpace_of_isDigitOrBlank (hs b hb)).1
  have hsplit : (s.map fun b ↦ Glyph.char (Char.ofUInt8 b)).splitOnP Glyph.isSpace =
      (s.splitOnP fun b ↦ !Text.isDigit b).map (List.map fun b ↦ Glyph.char (Char.ofUInt8 b)) :=
    splitOnP_map fun b hb ↦ (isSpace_of_isDigitOrBlank (hs b hb)).2
  rw [Text.words, Text.glyphs_of_lt hlt, digitGroups, map_snd_groupsLoop (by simp), hsplit,
    List.filter_map, List.map_map, List.map_nil, List.reverse_nil, List.nil_append,
    List.reverse_nil, List.nil_append]
  have hempty : ((!·.isEmpty) ∘ List.map fun b ↦ Glyph.char (Char.ofUInt8 b)) =
      fun group : Text ↦ !group.isEmpty := by
    funext group
    cases group <;> rfl
  rw [hempty]
  refine (List.map_congr_left fun group hg ↦ ?_).trans (List.map_id _)
  exact Text.ofGlyphs_map_ofUInt8 fun b hb ↦
    hlt b (mem_of_mem_splitOnP (List.mem_filter.mp hg).1 hb).1

/-- There are no more digit groups than bytes. -/
theorem length_digitGroups_le (s : Text) : (digitGroups s).length ≤ s.length := by
  have hloop (found : List (Nat × Text)) (current : Text) (position : Nat) :
      (groupsLoop found current position s).length ≤ found.length + current.length + s.length := by
    induction s generalizing found current position with
    | nil =>
      rw [groupsLoop]
      cases current <;> simp
    | cons b s ih =>
      rw [groupsLoop]
      split
      · have := ih found (b :: current) (position + 1)
        simp only [List.length_cons] at this ⊢
        omega
      · split
        · have := ih found [] (position + 1)
          simp only [List.length_cons, List.length_nil] at this ⊢
          omega
        · next hc =>
          have := ih ((position - current.length, current.reverse) :: found) [] (position + 1)
          have := List.length_pos_iff.mpr (by simpa using hc : current ≠ [])
          simp only [List.length_cons, List.length_nil] at *
          omega
  rw [digitGroups]
  simpa using hloop [] [] 0

/-- The longest literal has no more integers than the source has bytes. -/
theorem longestLiteral_le_length (source : Text) : longestLiteral source ≤ source.length := by
  have hfold (ts : List Token) (h : ∀ t ∈ ts, t.integers ≤ source.length) :
      ts.foldr (fun t n ↦ max t.integers n) 0 ≤ source.length := by
    induction ts with
    | nil => exact Nat.zero_le _
    | cons t ts ih =>
      exact Nat.max_le.mpr ⟨h t List.mem_cons_self, ih fun u hu ↦ h u (List.mem_cons_of_mem t hu)⟩
  refine hfold _ fun t ht ↦ ?_
  exact Nat.le_trans (length_digitGroups_le t.text)
    (length_text_le_of_mem_tokens (List.mem_filter.mp ht).1)

end Token

namespace Noun

/-! ### The noun of a literal -/

/-- As many numbers are read as there are words. -/
theorem size_of_readWords {read data : Array Int64} {words : List Text}
    (h : readWords read words = .ok data) : data.size = read.size + words.length := by
  induction words generalizing read with
  | nil =>
    cases h
    rfl
  | cons word words ih =>
    rw [readWords] at h
    cases hw : Text.readInt64? word with
    | none => rw [hw] at h; cases h
    | some x =>
      rw [hw] at h
      rw [ih h, Array.size_push, List.length_cons]
      omega

/-- The noun that a row of elements denotes in a literal: one element is a scalar. -/
def ofElements (xs : Array Int64) : Noun :=
  ⟨if xs.size = 1 then [] else [Int64.ofNat xs.size], xs⟩

/-- A literal denotes the elements that its words are read as. -/
theorem ofLiteral_eq_ok_iff {literal : Text} {a : Noun} : ofLiteral literal = .ok a ↔
    literal.words ≠ [] ∧ ∃ xs, readWords #[] literal.words = .ok xs ∧ a = ofElements xs := by
  cases hw : literal.words with
  | nil => simp [ofLiteral, hw]
  | cons word words =>
    cases hr : readWords #[] (word :: words) with
    | error e => simp [ofLiteral, hw, hr, bind, Except.bind]
    | ok xs =>
      have hliteral : ofLiteral literal = .ok (ofElements xs) := by
        simp only [ofLiteral, hw, hr, bind, Except.bind]
        split
        · next x hx =>
          have hxs : xs = #[x] := Array.toList_inj.mp hx
          rw [hxs]
          rfl
        · next hx =>
          have hne : xs.size ≠ 1 := by
            intro h1
            obtain ⟨x, rfl⟩ := Array.size_eq_one_iff.mp h1
            exact hx x rfl
          rw [ofElements, if_neg hne]
          rfl
      rw [hliteral]
      simp [eq_comm]

private theorem ofLiteral_eq_ok {literal : Text} {a : Noun} (h : ofLiteral literal = .ok a) :
    a.size = literal.words.length ∧ ((∃ x, a = scalar x) ∨ ∃ xs, a = vector xs) := by
  obtain ⟨-, xs, hr, rfl⟩ := ofLiteral_eq_ok_iff.mp h
  refine ⟨by simpa [size, ofElements] using size_of_readWords hr, ?_⟩
  by_cases h1 : xs.size = 1
  · obtain ⟨x, rfl⟩ := Array.size_eq_one_iff.mp h1
    exact .inl ⟨x, rfl⟩
  · exact .inr ⟨xs, by rw [ofElements, if_neg h1]; rfl⟩

/-- The noun of a literal of a source is a scalar or a vector with an element for each integer that
the scan found in it. -/
theorem ofLiteral_of_mem_tokens {source : Text} {t : Token} {a : Noun}
    (h : t ∈ (Token.scan source).tokens) (hl : t.isLiteral) (ha : ofLiteral t.text = .ok a) :
    a.size = t.integers ∧ ((∃ x, a = scalar x) ∨ ∃ xs, a = vector xs) := by
  rcases Token.kind_of_mem_tokens h with ⟨hk, -⟩ | ⟨-, s, ht⟩
  · rcases hk with hk | hk | hk <;> simp [Token.isLiteral, hk] at hl
  · obtain ⟨hs, hform⟩ := ofLiteral_eq_ok ha
    have hwords : t.text.words = (Token.digitGroups t.text).map Prod.snd := by
      refine Token.words_eq_digitGroups fun b hb ↦ ?_
      rw [ht] at hb
      exact Token.isDigitOrBlank_of_mem_numberRun hb
    rw [hwords, List.length_map] at hs
    exact ⟨hs, hform⟩

end Noun

end Ravel
