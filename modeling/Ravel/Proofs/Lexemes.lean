import Ravel.Proofs.Spelling

/-!
# How a text is scanned

`Token.Scans` lists what a scan can do at a place of a text: pass over a blank, find a verb or a
parenthesis, find a literal, or stop at a number that is too large or at a character that no token
has. Every scan is made of such steps (`Token.scans_scanFrom`), so that what is to be known of all
scans is proved by induction on them.
-/

namespace Ravel

namespace Text

/-! ### Groups of digits -/

/-- A row of at least one digit. -/
structure Digits (s : Text) : Prop where
  nonempty : s ≠ []
  isDigit : ∀ b ∈ s, isDigit b

/-- No group of digits goes on from the end of one text into the start of another. -/
def Apart (s t : Text) : Prop :=
  (∀ b ∈ s.getLast?, isDigit b = false) ∨ ∀ b ∈ t.head?, isDigit b = false

variable {s t : Text}

/-- Nothing runs on from the empty text. -/
theorem apart_nil_left (t : Text) : Apart [] t := .inl (by simp)

/-- Nothing runs on into the empty text. -/
theorem apart_nil_right (s : Text) : Apart s [] := .inr (by simp)

private theorem apart_cons_right {b : UInt8} (hb : isDigit b = false) (s t : Text) :
    Apart s (b :: t) :=
  .inr (by simpa using hb)

/-- Nothing runs on from a byte that is no digit. -/
theorem apart_singleton_left {b : UInt8} (hb : isDigit b = false) (t : Text) : Apart [b] t :=
  .inl (by simpa using hb)

/-- Whether a text runs on hangs on its last byte. -/
theorem Apart.of_getLast? {s' : Text} (h : Apart s t) (hs : s'.getLast? = s.getLast?) :
    Apart s' t := by
  unfold Apart
  rwa [hs]

/-- Whether a text is run on into hangs on its first byte. -/
theorem Apart.of_head? {t' : Text} (h : Apart s t) (ht : t'.head? = t.head?) : Apart s t' := by
  unfold Apart
  rwa [ht]

/-- What is apart from a text keeps its distance from a part of it, as far as the bytes before the
part do. -/
theorem Apart.append_left {before group after : Text} (h : Apart before group)
    (hs : Apart s (before ++ group ++ after)) (hne : group ≠ []) :
    Apart (s ++ before) group := by
  by_cases hb : before = []
  · subst hb
    rw [List.append_nil]
    exact hs.of_head? (List.head?_append_of_ne_nil group hne).symm
  · exact h.of_getLast? (List.getLast?_append_of_ne_nil s hb)

/-- What stands after a digit without joining it does not start with one. -/
theorem Apart.head?_of_digits (h : Apart s t) (hs : s.Digits) :
    ∀ b ∈ t.head?, isDigit b = false := by
  rcases h with h | h
  · have hb := hs.isDigit _ (List.getLast_mem hs.nonempty)
    rw [h _ (List.getLast_mem_getLast? hs.nonempty)] at hb
    cases hb
  · exact h

/-- Texts that are apart have their numerals one after the other. -/
theorem numerals_append (h : Apart s t) : numerals (s ++ t) = numerals s ++ numerals t := by
  rcases h with h | h
  · rcases List.eq_nil_or_concat s with rfl | ⟨s', b, rfl⟩
    · rfl
    · have hb : isDigit b = false := h b (by simp)
      rw [List.concat_eq_append, List.append_assoc, List.singleton_append,
        numerals_append_cons hb, numerals_append_cons hb s' [], numerals_nil, List.append_nil]
  · cases t with
    | nil => simp [numerals_nil]
    | cons b t =>
      have hb : isDigit b = false := h b rfl
      rw [numerals_append_cons hb, numerals_cons hb]

/-- A group of digits that is as long as it can be is a numeral. -/
theorem Digits.mem_numerals {before group after : Text} (hg : group.Digits)
    (hl : Apart before group) (hr : Apart group after) :
    group ∈ numerals (before ++ group ++ after) := by
  have hapart : Apart (before ++ group) after :=
    hr.of_getLast? (List.getLast?_append_of_ne_nil before hg.nonempty)
  rw [numerals_append hapart, numerals_append hl, numerals_of_digits hg.nonempty hg.isDigit]
  simp

/-- A group of digits that is as long as it can be is the run of digits that its text starts
with. -/
theorem Digits.takeWhile_append {g : Text} (hg : g.Digits) (hs : Apart g s) :
    (g ++ s).takeWhile Text.isDigit = g := by
  rw [List.takeWhile_append_of_pos hg.isDigit]
  have hnone : s.takeWhile Text.isDigit = [] := by
    rw [List.takeWhile_eq_nil_iff]
    intro hlen hd
    rw [hs.head?_of_digits hg _ (List.head?_eq_getElem? ▸ List.getElem?_eq_getElem hlen)] at hd
    cases hd
  rw [hnone, List.append_nil]

/-- Two groups of digits at one place are the same if both are as long as they can be. -/
theorem Digits.eq_of_append_eq {g g' : Text} (hg : g.Digits) (hg' : g'.Digits) (hs : Apart g s)
    (ht : Apart g' t) (h : g ++ s = g' ++ t) : g = g' := by
  rw [← hg.takeWhile_append hs, h, hg'.takeWhile_append ht]

end Text

namespace Token

/-- A row of at least one blank. -/
structure Blanks (s : Text) : Prop where
  nonempty : s ≠ []
  isBlank : ∀ b ∈ s, isBlank b

/-- Groups of digits with blanks between them, and the text that they stand in. -/
inductive Row : List Text → Text → Prop where
  | one {g : Text} (hg : g.Digits) : Row [g] g
  | more {g gap s : Text} {gs : List Text} (hg : g.Digits) (hb : Blanks gap) (h : Row gs s) :
      Row (g :: gs) (g ++ gap ++ s)

variable {b : UInt8} {s t : Text} {gs : List Text}

/-- A digit is no blank. -/
theorem isBlank_of_isDigit (hb : Text.isDigit b) : isBlank b = false := by
  by_contra hblank
  rw [isDigit_of_isBlank (by simpa using hblank)] at hb
  cases hb

/-- Blanks keep apart what is on their two sides. -/
theorem Blanks.apart (h : Blanks s) (t : Text) : Text.Apart t s ∧ Text.Apart s t := by
  constructor
  · right
    intro b hb
    exact isDigit_of_isBlank (h.isBlank b (List.mem_of_mem_head? hb))
  · left
    intro b hb
    exact isDigit_of_isBlank (h.isBlank b (List.mem_of_mem_getLast? hb))

private theorem Blanks.numerals (h : Blanks s) : s.numerals = [] := by
  have hnone := Text.numerals_append_left (fun b hb ↦ isDigit_of_isBlank (h.isBlank b hb)) []
  rwa [List.append_nil, Text.numerals_nil] at hnone

namespace Row

/-- A row of groups has a byte at least. -/
theorem nonempty (h : Row gs s) : s ≠ [] := by
  cases h with
  | one hg => exact hg.nonempty
  | more hg hb h => simp [hg.nonempty]

/-- A row has a group at least. -/
theorem groups_ne_nil (h : Row gs s) : gs ≠ [] := by
  cases h with
  | one hg => simp
  | more hg hb h => simp

/-- A row starts with a digit. -/
theorem isDigit_head (h : Row gs s) : ∀ b ∈ s.head?, Text.isDigit b := by
  cases h with
  | @one g hg =>
    intro b hb
    exact hg.isDigit b (List.mem_of_mem_head? hb)
  | @more g gap s gs hg hb h =>
    rw [List.append_assoc, List.head?_append_of_ne_nil _ hg.nonempty]
    intro b hb
    exact hg.isDigit b (List.mem_of_mem_head? hb)

/-- The groups of a row are its numerals. -/
theorem numerals_eq (h : Row gs s) : s.numerals = gs := by
  induction h with
  | one hg => exact Text.numerals_of_digits hg.nonempty hg.isDigit
  | @more g gap s gs hg hb h ih =>
    rw [List.append_assoc, Text.numerals_append, Text.numerals_append (hb.apart s).2, ih,
      hb.numerals, Text.numerals_of_digits hg.nonempty hg.isDigit]
    · rfl
    · exact (hb.apart g).1.of_head? (List.head?_append_of_ne_nil gap hb.nonempty)

private theorem cons_digit (h : Row gs s) (hb : Text.isDigit b) : ∃ gs', Row gs' (b :: s) := by
  have hcons {g : Text} (hg : g.Digits) : Text.Digits (b :: g) :=
    ⟨List.cons_ne_nil b g, List.forall_mem_cons.mpr ⟨hb, hg.isDigit⟩⟩
  cases h with
  | one hg => exact ⟨_, .one (hcons hg)⟩
  | more hg hgap h => exact ⟨_, .more (hcons hg) hgap h⟩

/-- Digits and blanks that end in a digit are a row, after the blanks that they start with. -/
theorem exists_of_digits_and_blanks (hs : ∀ b ∈ s, isDigitOrBlank b) (hne : s ≠ [])
    (hlast : ∀ b ∈ s.getLast?, Text.isDigit b) :
    ∃ gap gs rest, s = gap ++ rest ∧ (∀ b ∈ gap, isBlank b) ∧ Row gs rest := by
  induction s with
  | nil => exact absurd rfl hne
  | cons b s ih =>
    obtain ⟨hb, hrest⟩ := List.forall_mem_cons.mp hs
    by_cases hs0 : s = []
    · subst hs0
      have hd : Text.isDigit b := hlast b rfl
      exact ⟨[], [[b]], [b], rfl, by simp, .one ⟨by simp, by simpa using hd⟩⟩
    · rw [List.getLast?_cons_of_ne_nil hs0] at hlast
      obtain ⟨gap, gs, rest, rfl, hgap, hrow⟩ := ih hrest hs0 hlast
      by_cases hblank : isBlank b = true
      · exact ⟨b :: gap, gs, rest, rfl, List.forall_mem_cons.mpr ⟨hblank, hgap⟩, hrow⟩
      · have hd : Text.isDigit b := by simpa [isDigitOrBlank, hblank] using hb
        -- the digit starts a group of its own exactly if blanks follow it
        by_cases hgap0 : gap = []
        · subst hgap0
          obtain ⟨gs', hrow'⟩ := hrow.cons_digit hd
          exact ⟨[], gs', _, rfl, by simp, hrow'⟩
        · refine ⟨[], [b] :: gs, _, rfl, by simp, ?_⟩
          exact .more ⟨by simp, by simpa using hd⟩ ⟨hgap0, hgap⟩ hrow

end Row

/-- A row of groups has digits and blanks only. -/
theorem Row.isDigitOrBlank (h : Row gs s) : ∀ b ∈ s, isDigitOrBlank b := by
  induction h with
  | one hg =>
    intro b hb
    simp [Token.isDigitOrBlank, hg.isDigit b hb]
  | more hg hgap h ih =>
    intro b hb
    rcases List.mem_append.mp hb with hb | hb
    · rcases List.mem_append.mp hb with hb | hb
      · simp [Token.isDigitOrBlank, hg.isDigit b hb]
      · simp [Token.isDigitOrBlank, hgap.isBlank b hb]
    · exact ih b hb

/-! ### Number runs -/

/-- A closed text does not start with a digit. -/
theorem Closed.isDigit_head (h : Closed t) : ∀ b ∈ t.head?, Text.isDigit b = false := by
  cases t with
  | nil => simp
  | cons b t =>
    rintro _ ⟨⟩
    by_cases hb : isBlank b = true
    · exact isDigit_of_isBlank hb
    · exact h b (by rw [List.dropWhile_cons_of_neg hb]; rfl)

/-- What follows blanks that close a row of digits closes it too. -/
theorem Closed.of_cons_blank (h : Closed (b :: t)) (hb : isBlank b) : Closed t := by
  unfold Closed at h
  rwa [List.dropWhile_cons_of_pos hb] at h

/-- A text that starts with a digit is a number run, which is a row, and a closed rest. -/
private theorem exists_row_numberRun (hb : Text.isDigit b) (s : Text) :
    ∃ gs rest, b :: s = numberRun (b :: s) ++ rest ∧ Row gs (numberRun (b :: s)) ∧
      Closed rest := by
  obtain ⟨run, hrun⟩ : ∃ run, run = (b :: s).takeWhile isDigitOrBlank := ⟨_, rfl⟩
  have hnumber : numberRun (b :: s) = run.rdropWhile isBlank := by
    rw [hrun]
    rfl
  have hbytes : ∀ c ∈ numberRun (b :: s), isDigitOrBlank c :=
    fun c hc ↦ isDigitOrBlank_of_mem_numberRun hc
  have hsplit : b :: s =
      numberRun (b :: s) ++ (run.rtakeWhile isBlank ++ (b :: s).dropWhile isDigitOrBlank) := by
    rw [hnumber, ← List.append_assoc, List.rdropWhile_append_rtakeWhile, hrun,
      List.takeWhile_append_dropWhile]
  have hnotBlank := isBlank_of_isDigit hb
  have hne : numberRun (b :: s) ≠ [] := by
    intro h0
    have hall : ∀ c ∈ run, isBlank c := List.rdropWhile_eq_nil_iff.mp (hnumber ▸ h0)
    have hmem : b ∈ run := by
      rw [hrun, List.takeWhile_cons_of_pos (by simp [isDigitOrBlank, hb])]
      exact List.mem_cons_self
    have hblank := hall b hmem
    rw [hnotBlank] at hblank
    cases hblank
  have hlast : ∀ c ∈ (numberRun (b :: s)).getLast?, Text.isDigit c := by
    intro c hc
    have hbyte := hbytes c (List.mem_of_mem_getLast? hc)
    have hnot : isBlank c = false := by
      rw [hnumber] at hne
      have hend := List.rdropWhile_last_not isBlank run hne
      rw [hnumber, List.getLast?_eq_some_getLast hne] at hc
      cases hc
      simpa using hend
    simpa [isDigitOrBlank, hnot] using hbyte
  obtain ⟨gap, gs, rest, hrest, hgap, hrow⟩ := Row.exists_of_digits_and_blanks hbytes hne hlast
  -- the run starts with a digit, so that no blanks stand before the row
  have hgap0 : gap = [] := by
    cases gap with
    | nil => rfl
    | cons c gap =>
      have hhead : some b = some c := by simpa [hrest] using congrArg List.head? hsplit
      cases hhead
      rw [hgap b List.mem_cons_self] at hnotBlank
      cases hnotBlank
  rw [hgap0, List.nil_append] at hrest
  refine ⟨gs, _, hsplit, hrest ▸ hrow, ?_⟩
  -- after the blanks at the end of the run stands nothing that a run is made of
  intro c hc
  rw [List.dropWhile_append_of_pos fun d hd ↦ List.mem_rtakeWhile_imp hd] at hc
  cases hstop : (b :: s).dropWhile isDigitOrBlank with
  | nil =>
    rw [hstop] at hc
    cases hc
  | cons d u =>
    have hd : isDigitOrBlank d = false := by
      have := List.head?_dropWhile_not isDigitOrBlank (b :: s)
      simpa [hstop] using this
    obtain ⟨hdigit, hblank⟩ : Text.isDigit d = false ∧ isBlank d = false := by
      simpa [isDigitOrBlank] using hd
    rw [hstop, List.dropWhile_cons_of_neg (by simp [hblank])] at hc
    cases hc
    exact hdigit

/-- The groups already found stay in front of those that are found later. -/
private theorem groupsLoop_eq_append (found : List (Nat × Text)) (current : Text) (position : Nat)
    (s : Text) :
    groupsLoop found current position s = found.reverse ++ groupsLoop [] current position s := by
  induction s generalizing found current position with
  | nil =>
    rw [groupsLoop, groupsLoop]
    split <;> simp
  | cons b s ih =>
    rw [groupsLoop, groupsLoop]
    split
    · exact ih found (b :: current) (position + 1)
    · split
      · exact ih found [] (position + 1)
      · rw [ih (_ :: found), ih [_]]
        simp

/-- A group of digits that is too large, and the first such in its text. -/
structure FirstOversize (before group after : Text) : Prop where
  fits : ∀ g ∈ before.numerals, isOversize g = false
  digits : group.Digits
  left : Text.Apart before group
  right : Text.Apart group after
  oversize : isOversize group

/-- Text without large groups may stand in front, if no group goes across. -/
private theorem FirstOversize.append_left {before group after : Text}
    (h : FirstOversize before group after)
    (hs : ∀ g ∈ s.numerals, isOversize g = false) (hb : Text.isDigit b = false) :
    FirstOversize (s ++ b :: before) group after := by
  refine ⟨?_, h.digits, ?_, h.right, h.oversize⟩
  · rw [Text.numerals_append_cons hb]
    intro g hg
    rcases List.mem_append.mp hg with hg | hg
    · exact hs g hg
    · exact h.fits g hg
  · by_cases hbefore : before = []
    · subst hbefore
      exact .inl (by simpa using hb)
    · apply h.left.of_getLast?
      rw [List.getLast?_append_of_ne_nil _ (List.cons_ne_nil b before),
        List.getLast?_cons_of_ne_nil hbefore]

private theorem FirstOversize.append_right {before group after : Text}
    (h : FirstOversize before group after) (ht : Closed t) :
    FirstOversize before group (after ++ t) := by
  refine ⟨h.fits, h.digits, h.left, ?_, h.oversize⟩
  cases after with
  | nil => exact .inr ht.isDigit_head
  | cons c after => exact h.right.of_head? rfl

/-- The group that is found to be too large is the first such in the text, and its position is the
number of bytes before it. -/
private theorem firstOversize_of_groupsLoop {current group : Text} {position k : Nat}
    (hc : ∀ b ∈ current.reverse, Text.isDigit b) (hp : current.length ≤ position)
    (h : (groupsLoop [] current position s).find? (fun g ↦ isOversize g.2) = some (k, group)) :
    ∃ before after, current.reverse ++ s = before ++ group ++ after ∧
      k + current.length = position + before.length ∧ FirstOversize before group after := by
  have hdigits (hne : current ≠ []) : Text.Digits current.reverse := ⟨by simpa using hne, hc⟩
  have hnone : ∀ g ∈ Text.numerals [], isOversize g = false := by simp [Text.numerals_nil]
  induction s generalizing current position with
  | nil =>
    rw [groupsLoop] at h
    split at h
    · cases h
    · next hne =>
      have hne : current ≠ [] := by simpa using hne
      simp only [List.reverse_cons, List.reverse_nil, List.nil_append, List.find?_singleton] at h
      split at h
      · next ho =>
        cases h
        refine ⟨[], [], by simp, by simp; omega, hnone, hdigits hne, Text.apart_nil_left _,
          Text.apart_nil_right _, ho⟩
      · cases h
  | cons b s ih =>
    rw [groupsLoop] at h
    by_cases hb : Text.isDigit b = true
    · rw [if_pos hb] at h
      have hc' : ∀ c ∈ (b :: current).reverse, Text.isDigit c := by
        intro c hm
        rw [List.reverse_cons] at hm
        rcases List.mem_append.mp hm with hm | hm
        · exact hc c hm
        · rw [List.mem_singleton.mp hm, hb]
      obtain ⟨before, after, hs, hk, hx⟩ := ih hc' (by simpa using hp) h fun _ ↦ ⟨by simp, hc'⟩
      refine ⟨before, after, ?_, ?_, hx⟩
      · rw [← hs, List.reverse_cons, List.append_assoc, List.singleton_append]
      · rw [List.length_cons] at hk
        omega
    · have hd : Text.isDigit b = false := by simpa using hb
      rw [if_neg hb] at h
      by_cases hcur : current = []
      · subst hcur
        obtain ⟨before, after, hs, hk, hx⟩ := ih (by simp) (by simp) h fun h0 ↦ absurd rfl h0
        refine ⟨b :: before, after, ?_, ?_, hx.append_left (s := []) hnone hd⟩
        · rw [List.cons_append, List.cons_append, ← hs]
          rfl
        · rw [List.length_cons]
          simpa [Nat.add_assoc, Nat.add_comm 1] using hk
      · rw [if_neg (by simpa using hcur), groupsLoop_eq_append, List.reverse_singleton,
          List.singleton_append, List.find?_cons] at h
        split at h
        · next ho =>
          cases h
          refine ⟨[], b :: s, by simp, by simp; omega, hnone, hdigits hcur, Text.apart_nil_left _,
            Text.apart_cons_right hd _ _, ho⟩
        · next ho =>
          obtain ⟨before, after, hs, hk, hx⟩ := ih (by simp) (by simp) h fun h0 ↦ absurd rfl h0
          have hfits : ∀ g ∈ Text.numerals current.reverse, isOversize g = false := by
            rw [Text.numerals_of_digits (hdigits hcur).nonempty hc]
            simpa using ho
          refine ⟨current.reverse ++ b :: before, after, ?_, ?_, hx.append_left hfits hd⟩
          · rw [List.append_assoc, List.append_assoc, List.cons_append, ← List.append_assoc before,
              ← hs]
            rfl
          · simp only [List.length_append, List.length_reverse, List.length_cons,
              List.length_nil] at hk ⊢
            omega

/-- What a scan makes of a number run: a literal if every group is a 64-bit integer, and else an
error at the first group that is not. -/
private theorem numberLexeme_of_row {run : Text} (h : Row gs run) :
    ((∀ g ∈ gs, isOversize g = false) ∧
      numberLexeme run = .token (if 1 < gs.length then .vector else .number) run) ∨
    ∃ before group after, run = before ++ group ++ after ∧ FirstOversize before group after ∧
      numberLexeme run = .bad .invalidNumber before.length group := by
  have hgroups : (digitGroups run).map Prod.snd = gs := by
    rw [← Text.numerals_eq_digitGroups, h.numerals_eq]
  have hlength : (digitGroups run).length = gs.length := by rw [← hgroups, List.length_map]
  unfold numberLexeme
  dsimp only
  cases hf : (digitGroups run).find? fun g ↦ isOversize g.2 with
  | none =>
    left
    rw [hlength]
    refine ⟨?_, rfl⟩
    intro g hg
    rw [← hgroups] at hg
    obtain ⟨x, hx, rfl⟩ := List.mem_map.mp hg
    simpa using List.find?_eq_none.mp hf x hx
  | some found =>
    right
    obtain ⟨k, group⟩ := found
    obtain ⟨before, after, hs, hk, hx⟩ := firstOversize_of_groupsLoop (by simp) (by simp) hf
    refine ⟨before, group, after, hs, hx, ?_⟩
    have hk : k = before.length := by simpa using hk
    rw [hk]

/-! ### Scans -/

/-- The bytes that are tokens by themselves, with the kinds of these tokens. -/
inductive Mark : TokenKind → UInt8 → Prop where
  | verb {b : UInt8} (hb : b ∈ Verb.marks) : Mark .verb b
  | leftParen : Mark .leftParen 40
  | rightParen : Mark .rightParen 41

variable {kind : TokenKind}

private theorem Mark.lexeme_eq (h : Mark kind b) (s : Text) : lexeme b s = .token kind [b] := by
  cases h with
  | verb hb => exact lexeme_verb hb s
  | leftParen => rfl
  | rightParen => rfl

/-- A mark is no blank. -/
theorem Mark.isBlank_eq_false (h : Mark kind b) : isBlank b = false := by
  cases h with
  | verb hb => exact (not_blank_of_mem_marks hb).1
  | leftParen => rfl
  | rightParen => rfl

/-- A mark is no digit. -/
theorem Mark.isDigit_eq_false (h : Mark kind b) : Text.isDigit b = false := by
  cases h with
  | verb hb => exact (not_blank_of_mem_marks hb).2
  | leftParen => rfl
  | rightParen => rfl

/-- The bytes that blanks and tokens are made of. -/
def isLexical (b : UInt8) : Bool := isBlank b || Text.isDigit b || isVerb b || b = 40 || b = 41

/-- How a text is scanned from an offset of a source. -/
inductive Scans : Nat → Text → Scan → Prop where
  | done (offset : Nat) : Scans offset [] ⟨[], none⟩
  | blank {offset : Nat} {b : UInt8} {s : Text} {r : Scan} (hb : isBlank b)
      (h : Scans (offset + 1) s r) : Scans offset (b :: s) r
  | mark {offset : Nat} {kind : TokenKind} {b : UInt8} {s : Text} {r : Scan} (hb : Mark kind b)
      (h : Scans (offset + 1) s r) : Scans offset (b :: s) (r.after [⟨kind, offset, [b]⟩])
  | literal {offset : Nat} {gs : List Text} {run rest : Text} {r : Scan} (hrow : Row gs run)
      (hfits : ∀ g ∈ gs, isOversize g = false) (hc : Closed rest)
      (h : Scans (offset + run.length) rest r) :
      Scans offset (run ++ rest)
        (r.after [⟨if 1 < gs.length then .vector else .number, offset, run⟩])
  | oversize {offset : Nat} {before group after : Text} (hb : ∀ b ∈ before, isDigitOrBlank b)
      (h : FirstOversize before group after) :
      Scans offset (before ++ group ++ after)
        ⟨[], some ⟨.invalidNumber, offset + before.length, group⟩⟩
  | unknown {offset : Nat} {b : UInt8} {s : Text} (hb : isLexical b = false) :
      Scans offset (b :: s)
        ⟨[], some ⟨.unrecognizedCharacter, offset, (Text.firstGlyph b s).encode⟩⟩

/-- A scan goes on after the text of a token. -/
private theorem scanFrom_run {run rest : Text} (hl : lexeme b s = .token kind run)
    (hs : b :: s = run ++ rest) (hne : run ≠ []) (offset : Nat) :
    scanFrom offset (b :: s) =
      (scanFrom (offset + run.length) rest).after [⟨kind, offset, run⟩] := by
  rw [scanFrom_token hl (length_le_of_lexeme hl)]
  cases run with
  | nil => exact absurd rfl hne
  | cons c run =>
    obtain ⟨rfl, rfl⟩ := List.cons.inj hs
    rw [List.length_cons, Nat.add_sub_cancel, Nat.add_assoc, Nat.add_comm 1, List.append_eq,
      List.drop_left]

private theorem scanFrom_bad {k : Nat} {text : Text} {kind : ScanError.Kind}
    (hl : lexeme b s = .bad kind k text) (offset : Nat) :
    scanFrom offset (b :: s) = ⟨[], some ⟨kind, offset + k, text⟩⟩ := by
  simp [scanFrom, scanLoop, hl]

/-- Every scan is made of these steps. -/
theorem scans_scanFrom (offset : Nat) (s : Text) : Scans offset s (scanFrom offset s) := by
  induction hn : s.length using Nat.strongRecOn generalizing offset s with
  | ind n ih =>
    subst hn
    cases s with
    | nil => exact .done offset
    | cons b s =>
      have htail : Scans (offset + 1) s (scanFrom (offset + 1) s) :=
        ih s.length (Nat.lt_succ_self _) (offset + 1) s rfl
      have hmark {kind : TokenKind} (hm : Mark kind b) :
          Scans offset (b :: s) (scanFrom offset (b :: s)) := by
        rw [scanFrom_mark (hm.lexeme_eq s)]
        exact .mark hm htail
      by_cases hblank : isBlank b = true
      · rw [scanFrom_blank hblank]
        exact .blank hblank htail
      · by_cases hdigit : Text.isDigit b = true
        · have hlex : lexeme b s = numberLexeme (numberRun (b :: s)) := by
            rw [lexeme, if_neg hblank, if_pos hdigit]
          obtain ⟨gs, rest, hs, hrow, hclosed⟩ := exists_row_numberRun hdigit s
          obtain ⟨run, hrun⟩ : ∃ run, run = numberRun (b :: s) := ⟨_, rfl⟩
          have hbytes : ∀ c ∈ run, isDigitOrBlank c := by
            rw [hrun]
            exact fun c hc ↦ isDigitOrBlank_of_mem_numberRun hc
          rw [← hrun] at hs hrow hlex
          rcases numberLexeme_of_row hrow with ⟨hfits, hl⟩ | ⟨before, group, after, hx, hf, hl⟩
          · rw [scanFrom_run (hlex.trans hl) hs hrow.nonempty, hs]
            refine .literal hrow hfits hclosed (ih rest.length ?_ _ rest rfl)
            have := List.length_pos_iff.mpr hrow.nonempty
            rw [hs, List.length_append]
            omega
          · rw [scanFrom_bad (hlex.trans hl), hs, hx, List.append_assoc]
            refine .oversize (fun c hc ↦ hbytes c ?_) (hf.append_right hclosed)
            rw [hx]
            simp [hc]
        · by_cases hverb : b ∈ Verb.marks
          · exact hmark (.verb hverb)
          · by_cases hleft : b = 40
            · subst hleft
              exact hmark .leftParen
            · by_cases hright : b = 41
              · subst hright
                exact hmark .rightParen
              · have hlex : lexeme b s =
                    .bad .unrecognizedCharacter 0 (Text.firstGlyph b s).encode := by
                  simp [lexeme, hblank, hdigit, isVerb, hverb, hleft, hright]
                rw [scanFrom_bad hlex]
                exact .unknown (by simp [isLexical, hblank, hdigit, isVerb, hverb, hleft, hright])

end Token

end Ravel
