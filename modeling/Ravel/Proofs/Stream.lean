import Mathlib.Data.Stream.Init
import Ravel.Proofs.Tokenization

/-!
# The stream of tokens

A scanner answers requests one after the other, and a scan finds all tokens of a source at once. The
two agree: the answers are the tokens of the scan, then the token that reports its error if it has
one, and from then on the end of the input (`Token.stream_stable`). One request follows the steps
that a scan is made of (`Token.Scanner.answers_of_scans`). It goes through at most two states for
each byte that is left to read, and two more (`Token.Scanner.exists_iterate_turn`).
-/

namespace Ravel

/-- Bytes below 128 are told from the glyph that they start. -/
private theorem Glyph.isOf_firstGlyph {p : UInt8 → Bool} (hp : ∀ b, p b → b < 128) (b : UInt8)
    (s : Text) :
    (Text.firstGlyph b s).isOf p = p b := by
  by_cases hb : b < 128
  · have hall : ∀ n : Fin 256, (Char.ofUInt8 (UInt8.ofFin n)).toUInt8 = UInt8.ofFin n := by
      decide +kernel
    have hlt : (Char.ofUInt8 b).toNat < 128 := UInt8.lt_iff_toNat_lt.mp hb
    have hback : (Char.ofUInt8 b).toUInt8 = b := hall b.toFin
    rw [Text.firstGlyph_of_lt hb, isOf, hback, decide_eq_true hlt, Bool.true_and]
  · have hbyte : p b = false := by
      by_contra h
      exact hb (hp b (by simpa using h))
    rw [hbyte]
    cases hg : Text.firstGlyph b s with
    | byte c => rfl
    | char c =>
      have hc : ¬ c.toNat < 128 := fun h ↦ hb (Text.lt_of_firstGlyph hg h)
      rw [isOf, decide_eq_false hc, Bool.false_and]

namespace Token

private theorem lt_of_isBlank (b : UInt8) (hb : isBlank b) : b < 128 :=
  lt_of_isLexical (by simp [isLexical, hb])

private theorem lt_of_isDigit (b : UInt8) (hb : Text.isDigit b) : b < 128 :=
  lt_of_isLexical (by simp [isLexical, hb])

private theorem lt_of_isVerb (b : UInt8) (hb : isVerb b) : b < 128 :=
  lt_of_isLexical (by simp [isLexical, hb])

private theorem Row.exists_cons {gs : List Text} {s : Text} (h : Row gs s) (t : Text) :
    ∃ b u, s ++ t = b :: u ∧ Text.isDigit b := by
  obtain ⟨b, u, hs⟩ := List.exists_cons_of_ne_nil h.nonempty
  exact ⟨b, u ++ t, by rw [hs, List.cons_append], h.isDigit_head b (by rw [hs]; rfl)⟩

/-- Text in front may be left out, if no group goes across. -/
private theorem FirstOversize.of_append {s before group after : Text}
    (h : FirstOversize (s ++ before) group after) (ha : Text.Apart s before) :
    FirstOversize before group after := by
  refine ⟨?_, h.digits, ?_, h.right, h.oversize⟩
  · intro g hg
    apply h.fits
    rw [Text.numerals_append ha]
    exact List.mem_append_right _ hg
  · by_cases hbefore : before = []
    · rw [hbefore]
      exact Text.apart_nil_left group
    · exact h.left.of_getLast? (List.getLast?_append_of_ne_nil s hbefore).symm

/-- If it starts with a digit, the text up to a group that is too large is a row. -/
private theorem FirstOversize.exists_row {before group after : Text}
    (h : FirstOversize before group after)
    (hb : ∀ b ∈ before, isDigitOrBlank b) (hhead : ∀ b ∈ before.head?, Text.isDigit b) :
    ∃ gs, Row gs (before ++ group) := by
  have hbytes : ∀ b ∈ before ++ group, isDigitOrBlank b := by
    intro b hm
    rcases List.mem_append.mp hm with hm | hm
    · exact hb b hm
    · simp [isDigitOrBlank, h.digits.isDigit b hm]
  have hlast : ∀ b ∈ (before ++ group).getLast?, Text.isDigit b := by
    rw [List.getLast?_append_of_ne_nil before h.digits.nonempty]
    exact fun b hm ↦ h.digits.isDigit b (List.mem_of_mem_getLast? hm)
  have hfirst : ∀ b ∈ (before ++ group).head?, Text.isDigit b := by
    cases before with
    | nil => exact fun b hm ↦ h.digits.isDigit b (List.mem_of_mem_head? hm)
    | cons c before => exact hhead
  have hne : before ++ group ≠ [] := List.append_ne_nil_of_right_ne_nil before h.digits.nonempty
  obtain ⟨gap, gs, row, hsplit, hgap, hrow⟩ := Row.exists_of_digits_and_blanks hbytes hne hlast
  cases gap with
  | nil => exact ⟨gs, hsplit ▸ hrow⟩
  | cons c gap =>
    have hdigit := hfirst c (by rw [hsplit]; rfl)
    have hblank := hgap c List.mem_cons_self
    rw [isBlank_of_isDigit hdigit] at hblank
    cases hblank

namespace Scanner

variable {s s' : Scanner} {b : UInt8} {t : Text} {p : UInt8 → Bool}

/-! ### Reading -/

/-- A scanner that has read a number of bytes more. -/
def moved (n width : Nat) (s : Scanner) : Scanner := { s with position := s.position + n, width }

@[simp]
private theorem moved_moved (m n v w : Nat) (s : Scanner) :
    (s.moved m v).moved n w = s.moved (m + n) w := by
  simp [moved, Nat.add_assoc]

@[simp]
private theorem unread_moved (n w : Nat) (s : Scanner) :
    (s.moved n w).unread = s.unread.drop n := by
  simp [unread, moved, List.drop_drop]

private theorem since_moved (n w : Nat) (s : Scanner) :
    (s.moved n w).since s.position = s.unread.take n := by
  simp [since, unread, moved]

private theorem read_eq (hu : s.unread = b :: t) (hb : b < 128) : s.read = s.moved 1 1 := by
  have hwidth : (Text.firstGlyph b t).width = 1 := by
    rw [Text.firstGlyph_of_lt hb, Glyph.width, Glyph.encode, Text.ofChar_ofUInt8 hb,
      List.length_singleton]
  simp [read, peek?, hu, hwidth, moved]

private theorem sees_eq (hp : ∀ b, p b → b < 128) (s : Scanner) :
    s.sees p = s.unread.head?.any p := by
  cases hu : s.unread with
  | nil => simp [sees, peek?, hu]
  | cons b t => simp [sees, peek?, hu, Glyph.isOf_firstGlyph hp]

/-- A run that is seen starts with a byte that is read by itself. -/
private theorem read_of_sees (hp : ∀ b, p b → b < 128) (h : s.sees p) :
    s.read = s.moved 1 1 ∧
      (s.unread.takeWhile p).length = ((s.unread.drop 1).takeWhile p).length + 1 := by
  rw [sees_eq hp] at h
  cases hu : s.unread with
  | nil =>
    rw [hu] at h
    cases h
  | cons b t =>
    have hb : p b := by simpa [hu] using h
    refine ⟨read_eq hu (hp b hb), ?_⟩
    rw [List.takeWhile_cons_of_pos hb, List.length_cons, List.drop_one, List.tail_cons]

private theorem takeWhile_of_not_sees (hp : ∀ b, p b → b < 128) (h : ¬ s.sees p) :
    s.unread.takeWhile p = [] := by
  rw [sees_eq hp] at h
  cases hu : s.unread with
  | nil => rfl
  | cons b t => exact List.takeWhile_cons_of_neg (by simpa [hu] using h)

/-- To pass over a run is to read the bytes it is made of. -/
private theorem skip_eq (hp : ∀ b, p b → b < 128) (s : Scanner) :
    s.skip p = s.moved (s.unread.takeWhile p).length
      (if (s.unread.takeWhile p).length = 0 then s.width else 1) := by
  fun_induction skip p s with
  | case1 s hsees ih =>
    obtain ⟨hread, hlength⟩ := read_of_sees hp hsees
    rw [ih, hread, unread_moved, moved_moved, hlength, Nat.add_comm 1]
    simp [moved]
  | case2 s hsees =>
    rw [takeWhile_of_not_sees hp hsees]
    rfl

/-- To accept a run is to read the bytes it is made of. -/
private theorem acceptRun_eq (hp : ∀ b, p b → b < 128) (s : Scanner) :
    s.acceptRun p = s.moved (s.unread.takeWhile p).length 0 := by
  fun_induction acceptRun p s with
  | case1 s hsees ih =>
    obtain ⟨hread, hlength⟩ := read_of_sees hp hsees
    rw [ih, hread, unread_moved, moved_moved, hlength, Nat.add_comm 1]
  | case2 s hsees =>
    rw [takeWhile_of_not_sees hp hsees, backUp_read]
    rfl

/-! ### Going through the states -/

variable {q q' : State} {kind : TokenKind}

private theorem drive_of_some (h : step q s = (some q', s')) : drive q s = drive q' s' := by
  rw [drive]
  split
  · next q'' s'' hstep =>
    cases h.symm.trans hstep
    rfl
  · next s'' hstep => cases h.symm.trans hstep

private theorem drive_of_none (h : step q s = (none, s')) : drive q s = s' := by
  rw [drive]
  split
  · next q'' s'' hstep => cases h.symm.trans hstep
  · next s'' hstep =>
    cases h.symm.trans hstep
    rfl

/-- One turn of the loop that answers a request: it does what the state says, and nothing once there
is none. -/
def turn : Option State × Scanner → Option State × Scanner
  | (some q, s) => step q s
  | (none, s) => (none, s)

/-- The loop ends, and what the scanner has become by then is what it is driven to. -/
theorem exists_iterate_turn (q : State) (s : Scanner) :
    ∃ k ≤ ahead q s + 1, turn^[k] (some q, s) = (none, drive q s) := by
  fun_induction drive q s with
  | case1 q s q' s' h ih =>
    obtain ⟨k, hk, hturn⟩ := ih
    have hlt := ahead_lt_of_step h
    refine ⟨k + 1, by omega, ?_⟩
    rw [Function.iterate_succ_apply, turn, h, hturn]
  | case2 q s s' h => exact ⟨1, by omega, h⟩

/-! ### The next glyph -/

/-- What the first byte that is left to read leads to. -/
private theorem lexAny_cons (hu : s.unread = b :: t) :
    s.lexAny =
      if isBlank b then (some .space, s.read)
      else if Text.isDigit b then (some (.number 0), { s with width := 0 })
      else if isVerb b then (none, s.read.emit .verb)
      else if b = 40 then (none, s.read.emit .leftParen)
      else if b = 41 then (none, s.read.emit .rightParen)
      else (none, s.read.fail .unrecognizedCharacter s.start (s.read.since s.start)) := by
  have hbyte (c : UInt8) (hc : c < 128) : ∀ b, b == c → b < 128 :=
    fun b hb ↦ eq_of_beq hb ▸ hc
  have hpeek : s.peek? = some (Text.firstGlyph b t) := by rw [peek?, hu]
  have hstart : s.read.start = s.start := rfl
  simp only [lexAny, hpeek, Glyph.isOf_firstGlyph lt_of_isBlank,
    Glyph.isOf_firstGlyph lt_of_isDigit, Glyph.isOf_firstGlyph lt_of_isVerb,
    Glyph.isOf_firstGlyph (hbyte 40 (by decide)), Glyph.isOf_firstGlyph (hbyte 41 (by decide)),
    backUp_read, hstart, beq_iff_eq]

private theorem drive_end (hu : s.unread = []) : drive .any s = { s with width := 0 } := by
  have hpeek : s.peek? = none := by rw [peek?, hu]
  apply drive_of_none
  rw [step, lexAny, hpeek]
  simp [read, hpeek]

/-- A verb or a parenthesis is given. -/
private theorem drive_mark (hm : Mark kind b) (hu : s.unread = b :: t) :
    drive .any s = (s.moved 1 1).emit kind := by
  have hblank := hm.isBlank_eq_false
  have hdigit := hm.isDigit_eq_false
  have hlt : b < 128 := lt_of_isLexical hm.isLexical_eq_true
  apply drive_of_none
  rw [step, lexAny_cons hu, read_eq hu hlt]
  cases hm with
  | verb hb => simp [hblank, hdigit, isVerb, hb]
  | leftParen => rfl
  | rightParen => rfl

/-- A character that no token has is an error. -/
private theorem drive_unknown (hb : isLexical b = false) (hu : s.unread = b :: t)
    (hs : s.start = s.position) :
    drive .any s =
      s.read.fail .unrecognizedCharacter s.position (Text.firstGlyph b t).encode := by
  have hread : s.read = s.moved (Text.firstGlyph b t).width (Text.firstGlyph b t).width := by
    simp [read, peek?, hu, moved]
  have htext : s.read.since s.position = (Text.firstGlyph b t).encode := by
    obtain ⟨u, hglyph⟩ := Text.encode_firstGlyph_isPrefix b t
    rw [hread, since_moved, hu, ← hglyph, Glyph.width, List.take_left]
  apply drive_of_none
  simp only [isLexical, Bool.or_eq_false_iff, decide_eq_false_iff_not] at hb
  obtain ⟨⟨⟨⟨hblank, hdigit⟩, hverb⟩, hleft⟩, hright⟩ := hb
  rw [step, lexAny_cons hu, hs, htext]
  simp [hblank, hdigit, hverb, hleft, hright]

/-- The width of the glyph read last is not looked at. -/
private theorem drive_any_width (w : Nat) (s : Scanner) :
    drive .any { s with width := w } = drive .any s := by
  have hstep : step .any { s with width := w } = step .any s := rfl
  cases h : step .any s with
  | mk next s' =>
    rw [h] at hstep
    cases next with
    | some q => rw [drive_of_some hstep, drive_of_some h]
    | none => rw [drive_of_none hstep, drive_of_none h]

/-- A scanner at another place, before the text of a token. -/
def placed (place : Nat) (s : Scanner) : Scanner := { s with position := place, start := place }

private theorem unread_placed (hu : s.unread = b :: t) :
    (s.placed (s.position + 1)).unread = t := by
  have hmoved := unread_moved 1 1 s
  rwa [hu] at hmoved

/-- All blanks up to the next token are passed over at once. -/
private theorem drive_blanks (hb : isBlank b) (hu : s.unread = b :: t) :
    drive .any s = drive .any (s.placed (s.position + 1 + (t.takeWhile isBlank).length)) := by
  have hany : step .any s = (some .space, s.moved 1 1) := by
    rw [step, lexAny_cons hu, if_pos hb, read_eq hu (lt_of_isBlank b hb)]
  have hspace : step .space (s.moved 1 1) =
      (some .any,
        { s.placed (s.position + 1 + (t.takeWhile isBlank).length) with width := 1 }) := by
    rw [step, lexSpace, skip_eq lt_of_isBlank, unread_moved, hu]
    simp [moved, placed]
  rw [drive_of_some hany, drive_of_some hspace, drive_any_width]

/-- A blank is passed over. -/
private theorem drive_blank (hb : isBlank b) (hu : s.unread = b :: t) :
    drive .any s = drive .any (s.placed (s.position + 1)) := by
  rw [drive_blanks hb hu]
  by_cases hnext : ∃ c u, t = c :: u ∧ isBlank c
  · obtain ⟨c, u, rfl, hc⟩ := hnext
    rw [drive_blanks hc (unread_placed hu), List.takeWhile_cons_of_pos hc, List.length_cons]
    simp only [placed, Nat.add_assoc, Nat.add_comm 1]
  · have hnone : t.takeWhile isBlank = [] := by
      cases t with
      | nil => rfl
      | cons c u => exact List.takeWhile_cons_of_neg fun hc ↦ hnext ⟨c, u, rfl, hc⟩
    rw [hnone]
    rfl

/-! ### Number runs -/

variable {g gap : Text}

/-- A group of digits is a number exactly if it is within the 64-bit integers. -/
private theorem readInt64?_group (hg : g.Digits) : (Text.readInt64? g).isSome = !isOversize g := by
  rw [Text.readInt64?_of_digits hg.nonempty hg.isDigit, Text.toInt64?, isOversize]
  split
  · next h =>
    have hlt : ¬ 0x8000000000000000 ≤ Text.digitsValue g := by omega
    simp [hlt]
  · next h =>
    have hle : 0x8000000000000000 ≤ Text.digitsValue g := by omega
    simp [hle]

/-- What a group of digits leads to, when it has been read. -/
private theorem lexNumber_group (groups : Nat) (hg : g.Digits) (ht : Text.Apart g t)
    (hu : s.unread = g ++ t) :
    s.lexNumber groups =
      if isOversize g then (none, (s.moved g.length 0).fail .invalidNumber s.position g)
      else
        let u := (s.moved g.length 0).skip isBlank
        if u.sees Text.isDigit then (some (.number (groups + 1)), u)
        else
          (none, { u with position := s.position + g.length }.emit
            (if 0 < groups then .vector else .number)) := by
  have haccept : s.acceptRun Text.isDigit = s.moved g.length 0 := by
    rw [acceptRun_eq lt_of_isDigit, hu, hg.takeWhile_append ht]
  have hgroup : (s.moved g.length 0).since s.position = g := by
    rw [since_moved, hu, List.take_left]
  have hnumber := readInt64?_group hg
  rw [lexNumber, haccept]
  dsimp only
  rw [hgroup]
  cases hread : Text.readInt64? g with
  | none =>
    have hover : isOversize g = true := by simpa [hread] using hnumber
    rw [if_pos hover]
  | some x =>
    have hfits : ¬ isOversize g = true := by simpa [hread] using hnumber
    rw [if_neg hfits]
    rfl

private theorem drive_oversize (groups : Nat) (hg : g.Digits) (ht : Text.Apart g t)
    (hu : s.unread = g ++ t) (hover : isOversize g) :
    drive (.number groups) s = (s.moved g.length 0).fail .invalidNumber s.position g := by
  apply drive_of_none
  rw [step, lexNumber_group groups hg ht hu, if_pos hover]

/-- After a group that only blanks keep from another one, the run goes on. -/
private theorem drive_group_more (groups : Nat) (hg : g.Digits) (hgap : Blanks gap)
    (hb : Text.isDigit b) (hu : s.unread = g ++ gap ++ b :: t) (hfits : isOversize g = false) :
    ∃ w, drive (.number groups) s = drive (.number (groups + 1)) (s.moved (g ++ gap).length w) := by
  have hblanks : (s.moved g.length 0).unread.takeWhile isBlank = gap := by
    rw [unread_moved, hu, List.append_assoc, List.drop_left,
      List.takeWhile_append_of_pos hgap.isBlank,
      List.takeWhile_cons_of_neg (by simp [isBlank_of_isDigit hb]), List.append_nil]
  obtain ⟨w, hskip⟩ : ∃ w, (s.moved g.length 0).skip isBlank = s.moved (g ++ gap).length w :=
    ⟨_, by rw [skip_eq lt_of_isBlank, hblanks, moved_moved, ← List.length_append]⟩
  have hsees : (s.moved (g ++ gap).length w).sees Text.isDigit = true := by
    rw [sees_eq lt_of_isDigit, unread_moved, hu, List.drop_left]
    exact hb
  have hapart : Text.Apart g (gap ++ b :: t) :=
    (hgap.apart g).1.of_head? (List.head?_append_of_ne_nil gap hgap.nonempty)
  refine ⟨w, drive_of_some ?_⟩
  rw [step, lexNumber_group groups hg hapart (by rw [hu, List.append_assoc]), hfits]
  dsimp only
  rw [hskip]
  exact if_pos hsees

/-- A group that no other follows ends the run; the blanks after it are left. -/
private theorem drive_group_last (groups : Nat) (hg : g.Digits) (ht : Closed t)
    (hu : s.unread = g ++ t) (hfits : isOversize g = false) :
    ∃ w, drive (.number groups) s =
      (s.moved g.length w).emit (if 0 < groups then .vector else .number) := by
  have hrest : (s.moved g.length 0).unread = t := by rw [unread_moved, hu, List.drop_left]
  obtain ⟨w, hskip⟩ : ∃ w, (s.moved g.length 0).skip isBlank =
      (s.moved g.length 0).moved (t.takeWhile isBlank).length w :=
    ⟨_, by rw [skip_eq lt_of_isBlank, hrest]⟩
  have hdrop : t.drop (t.takeWhile isBlank).length = t.dropWhile isBlank := by
    calc t.drop (t.takeWhile isBlank).length
      _ = (t.takeWhile isBlank ++ t.dropWhile isBlank).drop (t.takeWhile isBlank).length := by
        rw [List.takeWhile_append_dropWhile]
      _ = t.dropWhile isBlank := List.drop_left
  have hsees :
      ¬ ((s.moved g.length 0).moved (t.takeWhile isBlank).length w).sees Text.isDigit = true := by
    rw [sees_eq lt_of_isDigit, unread_moved, hrest, hdrop]
    intro hany
    obtain ⟨c, hc, hd⟩ := (Option.any_eq_true _ _).mp hany
    rw [ht c hc] at hd
    cases hd
  refine ⟨w, drive_of_none ?_⟩
  rw [step, lexNumber_group groups hg (.inr ht.isDigit_head) hu, hfits]
  dsimp only
  rw [hskip]
  exact if_neg hsees

/-- A row of groups that are all numbers is read to its end. -/
private theorem drive_row (groups : Nat) {gs : List Text} {run : Text} (hrow : Row gs run)
    (ht : Closed t) (hfits : ∀ g ∈ gs, isOversize g = false) (hu : s.unread = run ++ t) :
    ∃ w, drive (.number groups) s =
      (s.moved run.length w).emit (if 1 < groups + gs.length then .vector else .number) := by
  induction hrow generalizing s groups with
  | @one g hg =>
    obtain ⟨w, hlast⟩ := drive_group_last groups hg ht hu (hfits g List.mem_cons_self)
    refine ⟨w, ?_⟩
    rw [hlast, List.length_singleton]
    simp only [Nat.lt_add_left_iff_pos]
  | @more g gap row gs hg hgap hrow ih =>
    obtain ⟨hfit, hrest⟩ := List.forall_mem_cons.mp hfits
    obtain ⟨b, u, hcons, hb⟩ := hrow.exists_cons t
    have hu' : s.unread = g ++ gap ++ b :: u := by rw [hu, List.append_assoc, hcons]
    obtain ⟨w, hmore⟩ := drive_group_more groups hg hgap hb hu' hfit
    have hunread : (s.moved (g ++ gap).length w).unread = row ++ t := by
      rw [unread_moved, hu, List.append_assoc, List.drop_left]
    obtain ⟨w', hlast⟩ := ih (groups + 1) hrest hunread
    refine ⟨w', ?_⟩
    rw [hmore, hlast, moved_moved, ← List.length_append, List.length_cons, Nat.add_assoc,
      Nat.add_comm 1]

/-- In a row whose last group is the first that is too large, that group is an error. -/
private theorem drive_row_oversize (groups : Nat) {gs : List Text} {run before group after : Text}
    (hrow : Row gs run) (hrun : run = before ++ group) (h : FirstOversize before group after)
    (hu : s.unread = run ++ after) :
    ∃ u : Scanner, drive (.number groups) s =
      u.fail .invalidNumber (s.position + before.length) group := by
  induction hrow generalizing s groups before with
  | @one g hg =>
    -- digits right before the group would belong to it
    have hbefore : before = [] := by
      by_contra hne
      have hdigits : before.Digits :=
        ⟨hne, fun b hb ↦ hg.isDigit b (by rw [hrun]; exact List.mem_append_left group hb)⟩
      have hhead := List.head_mem_head? h.digits.nonempty
      have hdigit := h.digits.isDigit _ (List.mem_of_mem_head? hhead)
      rw [h.left.head?_of_digits hdigits _ hhead] at hdigit
      cases hdigit
    subst hbefore hrun
    exact ⟨_, drive_oversize groups hg h.right hu h.oversize⟩
  | @more g gap row gs hg hgap hrow ih =>
    have hapart (u : Text) : Text.Apart (g ++ gap) u :=
      (hgap.apart u).2.of_getLast? (List.getLast?_append_of_ne_nil g hgap.nonempty)
    obtain ⟨rest, rfl, hrest⟩ : ∃ rest, before = g ++ gap ++ rest ∧ row = rest ++ group := by
      have hsplit : g ++ gap ++ row = before ++ group ++ [] := by rw [hrun, List.append_nil]
      rcases group_of_append (hapart row) h.digits hsplit with ⟨u, hb, hr⟩ | ⟨u, -, hr⟩
      · exact ⟨u, hb, by rw [hr, List.append_nil]⟩
      · exact absurd (List.append_eq_nil_iff.mp hr.symm).2 hrow.nonempty
    have hfit : isOversize g = false := by
      have hmem : g ∈ Text.numerals ([] ++ g ++ (gap ++ rest)) :=
        hg.mem_numerals (Text.apart_nil_left g)
          ((hgap.apart g).1.of_head? (List.head?_append_of_ne_nil gap hgap.nonempty))
      exact h.fits g (by rwa [List.nil_append, ← List.append_assoc] at hmem)
    obtain ⟨b, u, hcons, hb⟩ := hrow.exists_cons after
    have hu' : s.unread = g ++ gap ++ b :: u := by rw [hu, List.append_assoc, hcons]
    obtain ⟨w, hmore⟩ := drive_group_more groups hg hgap hb hu' hfit
    have hunread : (s.moved (g ++ gap).length w).unread = row ++ after := by
      rw [unread_moved, hu, List.append_assoc, List.drop_left]
    obtain ⟨v, hfail⟩ := ih (groups + 1) hrest (h.of_append (hapart rest)) hunread
    have hplace : (s.moved (g ++ gap).length w).position + rest.length =
        s.position + (g ++ gap ++ rest).length := by
      simp only [moved, List.length_append]
      omega
    exact ⟨v, by rw [hmore, hfail, hplace]⟩

private theorem drive_digit (hb : Text.isDigit b) (hu : s.unread = b :: t) :
    drive .any s = drive (.number 0) { s with width := 0 } := by
  apply drive_of_some
  rw [step, lexAny_cons hu, isBlank_of_isDigit hb]
  simp [hb]

/-- A run that starts with a digit ends at its first group that is too large. -/
private theorem drive_run_oversize {before group after : Text}
    (h : FirstOversize before group after)
    (hb : ∀ b ∈ before, isDigitOrBlank b) (hhead : ∀ b ∈ before.head?, Text.isDigit b)
    (hu : s.unread = before ++ group ++ after) :
    ∃ u : Scanner, drive .any s = u.fail .invalidNumber (s.position + before.length) group := by
  obtain ⟨gs, hrow⟩ := h.exists_row hb hhead
  obtain ⟨b, u, hcons, hdigit⟩ := hrow.exists_cons after
  rw [drive_digit hdigit (hu.trans hcons)]
  exact drive_row_oversize 0 hrow rfl h hu

/-- The first group that is too large is an error, also after blanks. -/
private theorem drive_first_oversize {before group after : Text}
    (h : FirstOversize before group after)
    (hb : ∀ b ∈ before, isDigitOrBlank b) (hu : s.unread = before ++ group ++ after) :
    ∃ u : Scanner, drive .any s = u.fail .invalidNumber (s.position + before.length) group := by
  induction before generalizing s with
  | nil => exact drive_run_oversize h hb (by simp) hu
  | cons b before ih =>
    obtain ⟨hbyte, hrest⟩ := List.forall_mem_cons.mp hb
    by_cases hblank : isBlank b = true
    · have hfirst : FirstOversize before group after :=
        FirstOversize.of_append h (Text.apart_singleton_left (isDigit_of_isBlank hblank) before)
      obtain ⟨u, hfail⟩ := ih hfirst hrest (unread_placed hu)
      refine ⟨u, ?_⟩
      rw [drive_blank hblank hu, hfail, List.length_cons, Nat.add_comm before.length,
        ← Nat.add_assoc]
      rfl
    · exact drive_run_oversize h hb (by simpa [isDigitOrBlank, hblank] using hbyte) hu

/-! ### Requests -/

/-- Between requests, and before an error: the text of no token has been read, and nothing beyond
the end of the input. -/
structure Settled (s : Scanner) : Prop where
  start_eq : s.start = s.position
  le_length : s.position ≤ s.input.length
  error_eq : s.error = none

/-- How a request is answered that starts at `s` and ends at `s'`, by the scan of the text that is
left: with the first of its tokens, with its error, or with what was to be answered if nothing is
found. -/
inductive Answers (s : Scanner) : Scan → Scanner → Prop where
  | token {t : Token} {ts : List Token} {error : Option ScanError} {s' : Scanner}
      (ht : s'.token = t) (hp : (s'.position : Int) = t.offset + t.text.length)
      (hi : s'.input = s.input) (hs : Settled s')
      (h : Scans s'.position s'.unread ⟨ts, error⟩) : Answers s ⟨t :: ts, error⟩ s'
  | error {e : ScanError} {s' : Scanner} (ht : s'.token = e.token) (he : s'.error = some e)
      (hi : s'.input = []) (hp : s'.position = 0) : Answers s ⟨[], some e⟩ s'
  | done {s' : Scanner} (ht : s'.token = s.token) (he : s'.error = none)
      (hi : s'.input = s.input) (hp : s'.position = s.input.length) : Answers s ⟨[], none⟩ s'

variable {r : Scan}

private theorem Answers.of_placed {place : Nat} (h : Answers (s.placed place) r s') :
    Answers s r s' := by
  cases h with
  | token ht hp hi hs h => exact .token ht hp hi hs h
  | error ht he hi hp => exact .error ht he hi hp
  | done ht he hi hp => exact .done ht he hi hp

/-- A token of the text that stands next is given, and the scanner is settled after it. -/
private theorem answers_emit {run rest : Text} (hs : Settled s) (hu : s.unread = run ++ rest)
    (w : Nat) (h : Scans (s.position + run.length) rest r) :
    Answers s (r.after [⟨kind, s.position, run⟩]) ((s.moved run.length w).emit kind) := by
  have hlength := s.length_unread
  rw [hu, List.length_append] at hlength
  have htext : (s.moved run.length w).since s.position = run := by
    rw [since_moved, hu, List.take_left]
  have hunread : ((s.moved run.length w).emit kind).unread = rest := by
    have hmoved := unread_moved run.length w s
    rw [hu, List.drop_left] at hmoved
    exact hmoved
  refine .token ?_ ?_ rfl ⟨rfl, ?_, hs.error_eq⟩ ?_
  · have hstart : (s.moved run.length w).start = s.position := hs.start_eq
    rw [emit, hstart, htext]
  · simp [emit, moved]
  · have hle := hs.le_length
    simp only [emit, moved]
    omega
  · rw [hunread]
    exact h

/-- What a request does is what a scan does with the text that is left. -/
theorem answers_of_scans {offset : Nat} (h : Scans offset t r) (hs : Settled s)
    (ho : s.position = offset) (hu : s.unread = t) : Answers s r (drive .any s) := by
  induction h generalizing s with
  | done offset =>
    have hlength := s.length_unread
    rw [hu, List.length_nil] at hlength
    have hle := hs.le_length
    rw [drive_end hu]
    exact .done rfl hs.error_eq rfl (by simp only; omega)
  | @blank offset b t r hb h ih =>
    have hlength := s.length_unread
    rw [hu, List.length_cons] at hlength
    have hplaced : Settled (s.placed (s.position + 1)) :=
      ⟨rfl, by simp only [placed]; omega, hs.error_eq⟩
    rw [drive_blank hb hu]
    exact (ih hplaced (by rw [← ho]; rfl) (unread_placed hu)).of_placed
  | @mark offset kind b t r hm h ih =>
    rw [drive_mark hm hu, ← ho]
    have hunread : s.unread = [b] ++ t := hu
    exact answers_emit hs hunread 1 (ho ▸ h)
  | @literal offset gs run rest r hrow hfits hc h ih =>
    obtain ⟨b, u, hcons, hdigit⟩ := hrow.exists_cons rest
    obtain ⟨w, hrun⟩ := drive_row 0 hrow hc hfits (s := { s with width := 0 }) hu
    rw [Nat.zero_add] at hrun
    rw [drive_digit hdigit (hu.trans hcons), hrun, ← ho]
    exact answers_emit hs hu w (ho ▸ h)
  | @oversize offset before group after hb h =>
    obtain ⟨u, hfail⟩ := drive_first_oversize h hb hu
    rw [hfail, ← ho]
    exact .error rfl rfl rfl rfl
  | @unknown offset b t hb =>
    rw [drive_unknown hb hu hs.start_eq, ← ho]
    exact .error rfl rfl rfl rfl

private theorem answers_next (hs : Settled s) (h : Scans s.position s.unread r) :
    Answers s.asked r s.next :=
  answers_of_scans h ⟨hs.start_eq, hs.le_length, hs.error_eq⟩ rfl rfl

private theorem after_end (hu : s.unread = []) (n : Nat) : s.after (n + 1) = s.asked := by
  have hnext {s : Scanner} (hu : s.unread = []) : s.next = s.asked := drive_end hu
  induction n generalizing s with
  | zero => exact hnext hu
  | succ n ih =>
    rw [after, hnext hu]
    exact ih hu

end Scanner

/-! ### The answers to all requests -/

/-- The offset just past the last of some tokens, or a given one if there is none. -/
def pastLast (offset : Int) (ts : List Token) : Int :=
  ts.getLast?.elim offset fun t ↦ t.offset + t.text.length

private theorem pastLast_cons (offset : Int) (t : Token) (ts : List Token) :
    pastLast offset (t :: ts) = pastLast (t.offset + t.text.length) ts := by
  cases ts with
  | nil => rfl
  | cons u ts => rw [pastLast, pastLast, List.getLast?_cons_cons]; rfl

/-- The answers once all tokens have been given: the error, or the end of the input at the offset
`last`; and then the end of the input for good, which lies at 0 after an error. -/
def closing (last length : Int) : Option ScanError → Stream' Token
  | some e => .cons e.token (.const (endAt 0))
  | none => .cons (endAt last) (.const (endAt length))

/-- The answers of a scanner are the tokens of the text that is left, and then the closing ones. It
has an error as soon as it has answered with it. -/
private theorem Scanner.after_of_scans {s : Scanner} {ts : List Token} {error : Option ScanError}
    (hs : Settled s) (h : Scans s.position s.unread ⟨ts, error⟩) (n : Nat) :
    (s.after (n + 1)).token =
        (ts ++ₛ closing (pastLast s.position ts) s.input.length error).get n ∧
      (s.after (n + 1)).error = if n < ts.length then none else error := by
  induction ts generalizing s n with
  | nil =>
    cases answers_next hs h with
    | error ht he hi hp =>
      cases n with
      | zero => exact ⟨ht, he⟩
      | succ n =>
        have hu : s.next.unread = [] := by rw [unread, hi, List.drop_nil]
        rw [after, after_end hu]
        exact ⟨by rw [asked, hp]; rfl, he⟩
    | done ht he hi hp =>
      cases n with
      | zero => exact ⟨ht, he⟩
      | succ n =>
        have hu : s.next.unread = [] := by rw [unread, hi, hp, List.drop_length]
        rw [after, after_end hu]
        exact ⟨by rw [asked, hp]; rfl, he⟩
  | cons t ts ih =>
    cases answers_next hs h with
    | token ht hp hi hs' h' =>
      cases n with
      | zero => exact ⟨ht, hs'.error_eq⟩
      | succ n =>
        have hlater := ih hs' h' n
        have hinput : s.next.input = s.input := hi
        rw [hp, hinput] at hlater
        rw [after, pastLast_cons, Stream'.cons_append_stream, Stream'.get_succ_cons,
          List.length_cons]
        simpa only [Nat.add_lt_add_iff_right] using hlater

private theorem kind_ne_of_mem_tokens {source : Text} {t : Token} (h : t ∈ (scan source).tokens) :
    t.kind ≠ .eof ∧ t.kind ≠ .error := by
  refine ⟨kind_ne_eof_of_mem_tokens h, ?_⟩
  intro herror
  rcases kind_of_mem_tokens h with ⟨hk, -⟩ | ⟨hk, -⟩
  · simp [herror] at hk
  · simp [isLiteral, herror] at hk

/-- The first answers to requests are the first members of the stream, and the error of the scan is
met by the answer that reports it. -/
private theorem stream_of_scan {source : Text} {ts : List Token} {error : Option ScanError}
    (h : scan source = ⟨ts, error⟩) (n : Nat) :
    (List.range n).map (stream source) =
        (ts ++ₛ closing (pastLast 0 ts) source.length error).take n ∧
      streamError? source n = if n ≤ ts.length then none else error := by
  have hscans : Scans 0 source ⟨ts, error⟩ := h ▸ scans_scanFrom 0 source
  have hafter (k : Nat) :=
    Scanner.after_of_scans (s := .ofSource source) ⟨rfl, Nat.zero_le _, rfl⟩ hscans k
  constructor
  · induction n with
    | zero => rfl
    | succ n ih =>
      have hlast : stream source n = (ts ++ₛ closing (pastLast 0 ts) source.length error).get n :=
        (hafter n).1
      rw [List.range_succ, List.map_append, ih, List.map_singleton, hlast, Stream'.take_succ']
  · cases n with
    | zero => rfl
    | succ n => exact (hafter n).2

/-- What stands before the first end of the input, if no token before it is one. -/
private theorem takeWhile_take_append {ts : List Token} (h : ∀ t ∈ ts, t.kind ≠ .eof)
    {σ : Stream' Token} (hσ : σ.head.kind = .eof) (n : Nat) :
    ((ts ++ₛ σ).take n).takeWhile (fun t ↦ t.kind ≠ .eof) = ts.take n := by
  induction ts generalizing n with
  | nil =>
    cases n with
    | zero => rfl
    | succ n =>
      rw [Stream'.nil_append_stream, Stream'.take_succ,
        List.takeWhile_cons_of_neg (by simpa using hσ), List.take_nil]
  | cons t ts ih =>
    obtain ⟨ht, hts⟩ := List.forall_mem_cons.mp h
    cases n with
    | zero => rfl
    | succ n =>
      rw [Stream'.cons_append_stream, Stream'.take_succ_cons,
        List.takeWhile_cons_of_pos (by simpa using ht), ih hts, List.take_succ_cons]

/-- However often it is asked, a scanner gives the tokens of its source, then the token of its error
if it has one, then the end of the input for good. -/
theorem stream_stable (source : Text) :
    (∀ t ∈ (scan source).tokens, t.kind ≠ .eof ∧ t.kind ≠ .error) ∧
    (∀ tokens, tokenize source = .ok tokens → ∀ n,
      (List.range n).map (stream source) =
        (tokens ++ₛ .cons (endAt (pastLast 0 tokens)) (.const (endAt source.length))).take n ∧
      ((List.range n).map (stream source)).takeWhile (fun t ↦ t.kind ≠ .eof) = tokens.take n ∧
      streamError? source n = none) ∧
    (∀ e, tokenize source = .error e → ∀ n,
      (List.range n).map (stream source) =
        ((scan source).tokens ++ₛ
          .cons ⟨.error, e.offset, e.message⟩ (.const (endAt 0))).take n ∧
      streamError? source n = if n ≤ (scan source).tokens.length then none else some e) ∧
    ∀ n, let s := (Scanner.ofSource source).after n
      ∃ k ≤ 2 * s.unread.length + 2, Scanner.turn^[k] (some .any, s.asked) = (none, s.next) := by
  refine ⟨fun t ht ↦ kind_ne_of_mem_tokens ht, ?tokens, ?error, ?answered⟩
  case tokens =>
    intro tokens h n
    have hscan := scan_of_tokenize h
    have hkinds : ∀ t ∈ tokens, t.kind ≠ .eof := by
      intro t ht
      have hmem : t ∈ (scan source).tokens := by rwa [hscan]
      exact (kind_ne_of_mem_tokens hmem).1
    obtain ⟨hstream, herror⟩ := stream_of_scan hscan n
    refine ⟨hstream, ?_, by rw [herror, ite_self]⟩
    rw [hstream]
    exact takeWhile_take_append hkinds rfl n
  case error =>
    intro e h n
    exact stream_of_scan (scan_of_tokenize_error h) n
  case answered =>
    intro n
    exact Scanner.exists_iterate_turn .any ((Scanner.ofSource source).after n).asked

/-- After the error of `1 * 2` there is nothing but the end of the input, and the end of `1 2\t ` is
first reported before its blanks. -/
theorem stream_stable_after_error :
    (List.range 4).map (stream (Text.ofString "1 * 2")) =
        [⟨.number, 0, [49]⟩, ScanError.token ⟨.unrecognizedCharacter, 2, [42]⟩, endAt 0, endAt 0] ∧
      streamError? (Text.ofString "1 * 2") 1 = none ∧
      streamError? (Text.ofString "1 * 2") 9 = some ⟨.unrecognizedCharacter, 2, [42]⟩ ∧
    (List.range 3).map (stream (Text.ofString "1 2\t ")) =
      [⟨.vector, 0, [49, 32, 50]⟩, endAt 3, endAt 5] := by
  have hbad : tokenize (Text.ofString "1 * 2") =
      .error ⟨.unrecognizedCharacter, 2, [42]⟩ := by with_unfolding_all rfl
  have hgood : tokenize (Text.ofString "1 2\t ") = .ok [⟨.vector, 0, [49, 32, 50]⟩] := by
    with_unfolding_all rfl
  obtain ⟨-, -, hstream, -⟩ := stream_stable (Text.ofString "1 * 2")
  obtain ⟨-, hstream', -, -⟩ := stream_stable (Text.ofString "1 2\t ")
  refine ⟨?_, ?_, ?_, ?_⟩
  · rw [(hstream _ hbad 4).1]
    with_unfolding_all rfl
  · rw [(hstream _ hbad 1).2]
    with_unfolding_all rfl
  · rw [(hstream _ hbad 9).2]
    with_unfolding_all rfl
  · rw [(hstream' _ hgood 3).1]
    with_unfolding_all rfl

end Token

end Ravel
