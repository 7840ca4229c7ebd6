import Ravel.Proofs.Tokenization
import Ravel.Text.Line

/-!
# The lines of a text

Reading a text line by line gives its pieces between line feeds, each without one carriage return at
its end, up to the first that does not fit the buffer (`Text.lines_eq`). A carriage return at the
end of a line is white space, so that trimmed lines do not depend on it (`Text.trim_dropLastIf`).
-/

namespace Ravel.Text

/-! ### Bytes below 128 after other bytes -/

/-- A character of more than one byte has no byte below 128. -/
private theorem le_of_mem_ofChar {c : Char} {b : UInt8} (h : b ∈ ofChar c)
    (hc : (ofChar c).length ≠ 1) :
    128 ≤ b := by
  have hbytes : ofChar c = [UInt8.ofNat c.val.toNat] ∨ ∀ x ∈ ofChar c, 128 ≤ x.toNat := by
    unfold ofChar String.utf8EncodeChar
    dsimp only
    split
    · exact .inl rfl
    · right
      split
      · simp only [List.forall_mem_cons, List.not_mem_nil, false_implies, implies_true, and_true,
          UInt8.toNat_ofNat']
        omega
      · split
        · simp only [List.forall_mem_cons, List.not_mem_nil, false_implies, implies_true, and_true,
            UInt8.toNat_ofNat']
          omega
        · simp only [List.forall_mem_cons, List.not_mem_nil, false_implies, implies_true, and_true,
            UInt8.toNat_ofNat']
          omega
  rcases hbytes with hone | hall
  · exact absurd (by rw [hone]; rfl) hc
  · exact UInt8.le_iff_toNat_le.mpr (hall b h)

/-- Bytes that start with a character are decoded to it. -/
theorem decode_of_isPrefix {s : Text} {c : Char} (h : ofChar c <+: s) :
    s.toByteArray.utf8DecodeChar? 0 = some c := by
  obtain ⟨t, rfl⟩ := h
  rw [List.toByteArray_append]
  exact ByteArray.utf8DecodeChar?_utf8EncodeChar_append

private theorem isPrefix_of_decode {s : Text} {c : Char}
    (h : s.toByteArray.utf8DecodeChar? 0 = some c) :
    ofChar c <+: s := by
  obtain ⟨l, hl⟩ := ByteArray.exists_of_utf8DecodeChar?_eq_some h
  refine ⟨l.data.toList, ?_⟩
  have hs := congrArg (fun bytes ↦ bytes.data.toList) hl
  simpa [ofChar] using hs.symm

/-- No character goes on with a byte below 128. -/
private theorem decode_append_cons (b : UInt8) (s : Text) {c : UInt8} (hc : c < 128) (t : Text) :
    (b :: s ++ c :: t).toByteArray.utf8DecodeChar? 0 =
      (b :: s).toByteArray.utf8DecodeChar? 0 := by
  cases h : (b :: s).toByteArray.utf8DecodeChar? 0 with
  | some x => exact decode_of_isPrefix ((isPrefix_of_decode h).trans (List.prefix_append _ _))
  | none =>
    cases hx : (b :: s ++ c :: t).toByteArray.utf8DecodeChar? 0 with
    | none => rfl
    | some x =>
      -- the character would end among the first bytes, or take in the byte below 128
      obtain ⟨l, hl⟩ := isPrefix_of_decode hx
      rcases List.append_eq_append_iff.mp hl with ⟨r, hshort, -⟩ | ⟨r, hlong, hr⟩
      · rw [decode_of_isPrefix ⟨r, hshort.symm⟩] at h
        cases h
      · cases r with
        | nil =>
          rw [decode_of_isPrefix ⟨[], by rw [hlong]; simp⟩] at h
          cases h
        | cons c' r =>
          obtain ⟨rfl, -⟩ := List.cons_eq_cons.mp hr
          have hmem : c ∈ ofChar x := by simp [hlong]
          have hle : 128 ≤ c := le_of_mem_ofChar hmem (by simp [hlong])
          exact absurd hc (UInt8.not_lt.mpr hle)

/-- What the first glyph of some bytes is does not hang on a byte below 128 after them. -/
private theorem firstGlyph_append_cons (b : UInt8) (s : Text) {c : UInt8} (hc : c < 128)
    (t : Text) :
    firstGlyph b (s ++ c :: t) = firstGlyph b s := by
  have htake : (s ++ c :: t).take 3 = s.take 3 ∨
      ∃ t', (s ++ c :: t).take 3 = s.take 3 ++ c :: t' := by
    rw [List.take_append]
    cases h : 3 - s.length with
    | zero => exact .inl (by simp)
    | succ n => exact .inr ⟨_, rfl⟩
  unfold firstGlyph
  rcases htake with h | ⟨t', h⟩
  · rw [h]
  · rw [h, ← List.cons_append, decode_append_cons b (s.take 3) hc]

/-- A byte below 128 is a glyph of its own wherever it stands. -/
theorem glyphs_append_cons (s : Text) {c : UInt8} (hc : c < 128) (t : Text) :
    glyphs (s ++ c :: t) = glyphs s ++ .char (Char.ofUInt8 c) :: glyphs t := by
  -- by the glyphs of `s`, the first of which ends before `c`
  induction hn : s.length using Nat.strong_induction_on generalizing s with
  | _ n ih =>
  cases s with
  | nil =>
    have hone : ∀ b ∈ [c], b < 128 := by simpa using hc
    exact glyphs_append_of_lt hone t
  | cons b s =>
    have hw : (firstGlyph b s).width - 1 ≤ s.length := by
      have hle := (encode_firstGlyph_isPrefix b s).length_le
      rw [List.length_cons] at hle
      exact Nat.sub_le_of_le_add hle
    have hless : (s.drop ((firstGlyph b s).width - 1)).length < n := by
      rw [List.length_drop, ← hn, List.length_cons]
      omega
    rw [List.cons_append, glyphs_cons, firstGlyph_append_cons b s hc,
      List.drop_append_of_le_length hw, ih _ hless _ rfl, glyphs_cons, List.cons_append]

/-! ### The white space at the end of a line -/

private theorem dropWhileEnd_dropWhile_append {α : Type} {p : α → Bool} {x : α} (hx : p x)
    (s : List α) :
    dropWhileEnd p ((s ++ [x]).dropWhile p) = dropWhileEnd p (s.dropWhile p) := by
  rw [List.dropWhile_append]
  split
  · next h => simp [dropWhileEnd, List.isEmpty_iff.mp h, hx]
  · simp [dropWhileEnd, hx]

/-- A carriage return at the end of a line is trimmed with the other white space there. -/
theorem trim_dropLastIf (s : Text) : trim (dropLastIf 13 s) = trim s := by
  unfold dropLastIf
  split
  · next h =>
    obtain ⟨t, rfl⟩ := List.getLast?_eq_some_iff.mp h
    have hspace : (Glyph.char (Char.ofUInt8 13)).isSpace := rfl
    rw [List.dropLast_concat, trim, trim, glyphs_append_cons t (by decide)]
    exact congrArg ofGlyphs (dropWhileEnd_dropWhile_append hspace (glyphs t)).symm
  · rfl

/-! ### Lines and segments -/

/-- The pieces of a text between line feeds, less an empty one at the end. -/
def segments (s : Text) : List Text :=
  let pieces := s.splitOn 10
  if pieces.getLast? = some [] then pieces.dropLast else pieces

/-- A piece of a text that fits the buffer for lines, with a byte to spare for its line feed. -/
def fitsLine (s : Text) : Bool := s.length < lineBuffer

/-- A text without the separator is its only part. -/
theorem splitOn_of_not_mem {b : UInt8} {s : Text} (hs : b ∉ s) : s.splitOn b = [s] :=
  List.splitOnP_eq_singleton fun x hx ↦ by
    simpa using fun h : x = b ↦ hs (h ▸ hx)

private theorem splitOn_append_cons {b : UInt8} {s : Text} (hs : b ∉ s) (t : Text) :
    splitOn b (s ++ b :: t) = s :: splitOn b t :=
  List.splitOnP_append_cons_of_forall_mem (fun x hx ↦ by
    simpa using fun h : x = b ↦ hs (h ▸ hx)) b (by simp) t

private theorem segments_of_not_mem {s : Text} (hs : 10 ∉ s) :
    s.segments = if s = [] then [] else [s] := by
  unfold segments
  rw [splitOn_of_not_mem hs]
  simp

private theorem segments_append_cons {s : Text} (hs : 10 ∉ s) (t : Text) :
    segments (s ++ 10 :: t) = s :: segments t := by
  obtain ⟨p, ps, hps⟩ := List.exists_cons_of_ne_nil (List.splitOnP_ne_nil (· == 10) t)
  unfold segments
  rw [splitOn_append_cons hs, splitOn, hps]
  simp only [List.getLast?_cons_cons, List.dropLast_cons_cons]
  split <;> rfl

/-- Bytes without a line feed at the start of a text are the start of its first segment. -/
private theorem exists_segments_append {s : Text} (hs : 10 ∉ s) (hne : s ≠ []) (t : Text) :
    ∃ u ps, segments (s ++ t) = (s ++ u) :: ps := by
  by_cases ht : 10 ∈ t
  · obtain ⟨u, v, rfl, hu⟩ := List.eq_append_cons_of_mem ht
    refine ⟨u, segments v, ?_⟩
    rw [← List.append_assoc, segments_append_cons (by simp [hs, hu])]
  · refine ⟨t, [], ?_⟩
    rw [segments_of_not_mem (by simp [hs, ht])]
    simp [hne]

private theorem mem_splitOn_of_mem_segments {s p : Text} (h : p ∈ s.segments) :
    p ∈ s.splitOn 10 := by
  unfold segments at h
  dsimp only at h
  split at h
  · exact List.dropLast_subset _ h
  · exact h

private theorem endLine_eq (s : Text) : endLine s = dropLastIf 13 s.reverse := by
  unfold endLine dropLastIf
  split
  · simp
  · next h =>
    cases s with
    | nil => rfl
    | cons b s =>
      have hb : b ≠ 13 := fun hb ↦ h s (by rw [hb])
      simp [hb]

/-- Reading on goes through the segments of the line under way and of what follows it. -/
private theorem linesLoop_eq (read : List Text) {current : Text} (hc : 10 ∉ current)
    (hlt : current.length < lineBuffer) (s : Text) :
    linesLoop read current current.length s =
      let ps := segments (current.reverse ++ s)
      ⟨read.reverse ++ (ps.takeWhile fitsLine).map (dropLastIf 13), !ps.all fitsLine⟩ := by
  induction s generalizing read current with
  | nil =>
    rw [List.append_nil, segments_of_not_mem (by simpa using hc)]
    by_cases h : current = [] <;> simp [linesLoop, h, fitsLine, hlt, endLine_eq]
  | cons b s ih =>
    rw [linesLoop]
    by_cases hb : b = 10
    · have hrest := ih (endLine current :: read) List.not_mem_nil (Nat.zero_lt_succ _)
      rw [List.length_nil] at hrest
      rw [if_pos hb, hb, hrest, segments_append_cons (by simpa using hc)]
      simp [fitsLine, hlt, endLine_eq]
    · have hmem : 10 ∉ b :: current := by simp [hc, Ne.symm hb]
      rw [if_neg hb, List.append_cons, ← List.reverse_cons]
      split
      · next hlong =>
        obtain ⟨u, ps, hps⟩ := exists_segments_append
          (mt List.mem_reverse.mp hmem) (List.reverse_ne_nil_iff.mpr (List.cons_ne_nil _ _)) s
        have hfit : fitsLine ((b :: current).reverse ++ u) = false := by
          simp only [fitsLine, List.length_append, List.length_reverse, List.length_cons,
            decide_eq_false_iff_not]
          omega
        rw [hps]
        simp only [List.takeWhile_cons, List.all_cons, hfit]
        simp
      · next hshort =>
        exact ih read hmem (Nat.lt_of_not_le hshort)

/-- The lines of a text are its segments up to the first that does not fit the buffer, each without
one carriage return at its end. -/
theorem lines_eq (s : Text) :
    s.lines =
      ⟨(s.segments.takeWhile fitsLine).map (dropLastIf 13), !s.segments.all fitsLine⟩ :=
  linesLoop_eq [] List.not_mem_nil (Nat.zero_lt_succ _) s

/-- If all segments of a text fit the buffer, they are its lines. -/
theorem lines_of_fitsLine {s : Text} (h : ∀ p ∈ s.segments, fitsLine p) :
    s.lines = ⟨s.segments.map (dropLastIf 13), false⟩ := by
  have hall : s.segments.all fitsLine = true := List.all_eq_true.mpr h
  rw [lines_eq, hall, List.takeWhile_eq_self_iff.mpr h, Bool.not_true]

/-- If all pieces of a text fit the buffer, all of its segments are lines. -/
theorem lines_of_fits {s : Text} (h : ∀ p ∈ s.splitOn 10, p.length < lineBuffer) :
    s.lines = ⟨s.segments.map (dropLastIf 13), false⟩ :=
  lines_of_fitsLine fun p hp ↦ decide_eq_true (h p (mem_splitOn_of_mem_segments hp))

/-- A line is a piece of the text, perhaps without a carriage return at its end. -/
theorem exists_of_mem_lines {s line : Text} (h : line ∈ s.lines.lines) :
    ∃ p ∈ s.splitOn 10, line = dropLastIf 13 p := by
  rw [lines_eq] at h
  obtain ⟨p, hp, rfl⟩ := List.mem_map.mp h
  exact ⟨p, mem_splitOn_of_mem_segments ((List.takeWhile_sublist _).subset hp), rfl⟩

/-- A line has no line feed. -/
theorem not_mem_of_mem_lines {s line : Text} (h : line ∈ s.lines.lines) : 10 ∉ line := by
  obtain ⟨p, hp, rfl⟩ := exists_of_mem_lines h
  intro hmem
  have hmem' : 10 ∈ p := by
    unfold dropLastIf at hmem
    split at hmem
    · exact List.dropLast_subset _ hmem
    · exact hmem
  simpa using (Token.mem_of_mem_splitOnP hp hmem').2

end Ravel.Text
