import Ravel.Proofs.Numerals

/-!
# Scanning texts one after another

A text is scanned from wherever in a source it starts (`Token.scanFrom`). The place changes the
offsets of its tokens and nothing else (`Token.word_scanFrom`). What follows a text can change its
last token only by going on with a digit, perhaps after blanks; if it does not, the tokens of the
two texts together are those of the first followed by those of the second
(`Token.scanFrom_append`).
-/

namespace Ravel.Token

/-- The scan of a text that starts at an offset of a source. -/
def scanFrom (offset : Nat) (s : Text) : Scan := scanLoop [] offset 0 s

/-- A scan with tokens found before it. -/
def Scan.after (ts : List Token) (r : Scan) : Scan := ⟨ts ++ r.tokens, r.error⟩

@[simp]
private theorem Scan.after_after (ts us : List Token) (r : Scan) :
    (r.after us).after ts = r.after (ts ++ us) := by
  simp [Scan.after]

/-- Tokens before a scan come first. -/
@[simp]
theorem Scan.tokens_after (ts : List Token) (r : Scan) : (r.after ts).tokens = ts ++ r.tokens := rfl

/-- The tokens already found stay in front of those of the scan. -/
private theorem scanLoop_eq_after (found : List Token) (offset skip : Nat) (s : Text) :
    scanLoop found offset skip s = (scanLoop [] offset skip s).after found.reverse := by
  induction s generalizing found offset skip with
  | nil => simp [scanLoop, Scan.after]
  | cons b s ih =>
    cases skip with
    | succ skip => exact ih found (offset + 1) skip
    | zero =>
      rw [scanLoop, scanLoop]
      cases lexeme b s with
      | blank => exact ih found (offset + 1) 0
      | token kind text =>
        dsimp only
        rw [ih (_ :: found), ih [_]]
        simp
      | bad kind skip text => simp [Scan.after]

/-- Bytes that belong to the last token are passed over. -/
private theorem scanLoop_skip (found : List Token) (offset : Nat) {skip : Nat} {s : Text}
    (h : skip ≤ s.length) :
    scanLoop found offset skip s = scanLoop found (offset + skip) 0 (s.drop skip) := by
  induction skip generalizing offset s with
  | zero => rfl
  | succ skip ih =>
    cases s with
    | nil => exact absurd h (Nat.not_succ_le_zero skip)
    | cons b s =>
      rw [scanLoop, ih _ (Nat.le_of_succ_le_succ h), List.drop_succ_cons]
      congr 1
      omega

/-! ### One lexeme -/

variable {b : UInt8} {s t : Text}

/-- There is nothing to scan at the end. -/
theorem scanFrom_nil (offset : Nat) : scanFrom offset [] = ⟨[], none⟩ := rfl

/-- A blank is passed over. -/
theorem scanFrom_blank (hb : isBlank b) (offset : Nat) (s : Text) :
    scanFrom offset (b :: s) = scanFrom (offset + 1) s := by
  simp only [scanFrom, scanLoop, lexeme, hb, if_true]

/-- A token is found, and the scan goes on after its text. -/
theorem scanFrom_token {kind : TokenKind} {text : Text} (hl : lexeme b s = .token kind text)
    (hlen : text.length ≤ s.length + 1) (offset : Nat) :
    scanFrom offset (b :: s) =
      (scanFrom (offset + 1 + (text.length - 1)) (s.drop (text.length - 1))).after
        [⟨kind, offset, text⟩] := by
  simp only [scanFrom, scanLoop, hl]
  rw [scanLoop_skip _ _ (by omega), scanLoop_eq_after]
  rfl

/-- A token of one byte is found, and the scan goes on after it. -/
theorem scanFrom_mark {kind : TokenKind} (hl : lexeme b s = .token kind [b]) (offset : Nat) :
    scanFrom offset (b :: s) = (scanFrom (offset + 1) s).after [⟨kind, offset, [b]⟩] :=
  scanFrom_token hl (Nat.le_add_left 1 s.length) offset

/-- Blanks have no tokens. -/
theorem scanFrom_blanks (h : ∀ b ∈ s, isBlank b) (offset : Nat) :
    scanFrom offset s = ⟨[], none⟩ := by
  induction s generalizing offset with
  | nil => rfl
  | cons b s ih =>
    obtain ⟨hb, hrest⟩ := List.forall_mem_cons.mp h
    rw [scanFrom_blank hb, ih hrest]

/-- The marks of verbs are neither blanks nor digits. -/
theorem not_blank_of_mem_marks (hb : b ∈ Verb.marks) :
    isBlank b = false ∧ Text.isDigit b = false := by
  have hall : Verb.marks.all (fun m ↦ !isBlank m && !Text.isDigit m) = true := rfl
  simpa using List.all_eq_true.mp hall b hb

/-- The mark of a verb is a token. -/
theorem lexeme_verb (hb : b ∈ Verb.marks) (s : Text) : lexeme b s = .token .verb [b] := by
  obtain ⟨hblank, hdigit⟩ := not_blank_of_mem_marks hb
  have hverb : isVerb b = true := List.contains_iff_mem.mpr hb
  simp [lexeme, hblank, hdigit, hverb]

/-- A left parenthesis is a token. -/
theorem lexeme_leftParen (s : Text) : lexeme 40 s = .token .leftParen [40] := rfl

/-- A right parenthesis is a token. -/
theorem lexeme_rightParen (s : Text) : lexeme 41 s = .token .rightParen [41] := rfl

/-! ### A text after another -/

/-- A text that does not go on with a digit, even after blanks. -/
def Closed (t : Text) : Prop := ∀ b ∈ (t.dropWhile isBlank).head?, Text.isDigit b = false

/-- The end goes on with no digit. -/
theorem closed_nil : Closed [] := by
  rintro b ⟨⟩

/-- A byte that is neither a blank nor a digit closes a row of digits. -/
theorem closed_cons (hb : isBlank b = false) (hd : Text.isDigit b = false) (t : Text) :
    Closed (b :: t) := by
  intro c hc
  rw [List.dropWhile_cons, hb] at hc
  cases hc
  exact hd

/-- Blanks before what closes a row of digits do not matter. -/
theorem Closed.cons_blank (ht : Closed t) (hb : isBlank b) : Closed (b :: t) := by
  unfold Closed
  rw [List.dropWhile_cons, if_pos hb]
  exact ht

/-- Of the bytes of number runs a closed text goes on with blanks only. -/
private theorem Closed.takeWhile_eq (ht : Closed t) :
    t.takeWhile isDigitOrBlank = t.takeWhile isBlank := by
  induction t with
  | nil => rfl
  | cons b t ih =>
    rw [List.takeWhile_cons, List.takeWhile_cons]
    by_cases hb : isBlank b = true
    · have htail : Closed t := by
        unfold Closed at ht
        rwa [List.dropWhile_cons, if_pos hb] at ht
      rw [if_pos hb, if_pos (by rw [isDigitOrBlank, hb, Bool.or_true]), ih htail]
    · have hd : Text.isDigit b = false := by
        refine ht b ?_
        rw [List.dropWhile_cons, if_neg hb]
        rfl
      have hb : isBlank b = false := by simpa using hb
      rw [isDigitOrBlank, hd, hb]
      rfl

private theorem dropWhileEnd_append {p : UInt8 → Bool} (s : Text) (ht : ∀ b ∈ t, p b) :
    Text.dropWhileEnd p (s ++ t) = Text.dropWhileEnd p s := by
  rw [Text.dropWhileEnd, Text.dropWhileEnd, List.reverse_append, List.dropWhile_append_of_pos]
  intro b hb
  exact ht b (List.mem_reverse.mp hb)

/-- A closed text does not prolong a number run. -/
private theorem numberRun_append (s : Text) (ht : Closed t) : numberRun (s ++ t) = numberRun s := by
  unfold numberRun
  show Text.dropWhileEnd isBlank ((s ++ t).takeWhile isDigitOrBlank) =
    Text.dropWhileEnd isBlank (s.takeWhile isDigitOrBlank)
  rw [List.takeWhile_append]
  split
  · next hall =>
    have hblanks : ∀ b ∈ t.takeWhile isBlank, isBlank b := List.all_eq_true.mp List.all_takeWhile
    rw [(List.takeWhile_prefix _).eq_of_length hall, ht.takeWhile_eq, dropWhileEnd_append s hblanks]
  · rfl

/-- A closed text does not change the token before it. -/
private theorem lexeme_append (ht : Closed t)
    (h : ∀ kind skip text, lexeme b s ≠ .bad kind skip text) :
    lexeme b (s ++ t) = lexeme b s := by
  unfold lexeme at h ⊢
  split
  · rfl
  · next hblank =>
    split
    · rw [← List.cons_append, numberRun_append (b :: s) ht]
    · next hdigit =>
      rw [if_neg hblank, if_neg hdigit] at h
      split
      · rfl
      · next hverb =>
        split
        · rfl
        · next hleft =>
          split
          · rfl
          · next hright =>
            rw [if_neg hverb, if_neg hleft, if_neg hright] at h
            exact absurd rfl (h _ _ _)

/-- No lexeme is longer than the text that it starts. -/
theorem length_le_of_lexeme {kind : TokenKind} {text : Text} (h : lexeme b s = .token kind text) :
    text.length ≤ s.length + 1 := by
  rcases lexeme_eq_token h with ⟨-, rfl⟩ | ⟨-, rfl, -⟩
  · exact Nat.le_add_left 1 s.length
  · exact (numberRun_isPrefix (b :: s)).length_le

/-- The tokens of a text and a closed one after it are those of the two. -/
private theorem scanLoop_append (ht : Closed t) {offset skip : Nat} (hk : skip ≤ s.length)
    (h : (scanLoop [] offset skip s).error = none) :
    scanLoop [] offset skip (s ++ t) =
      (scanFrom (offset + s.length) t).after (scanLoop [] offset skip s).tokens := by
  induction s generalizing offset skip with
  | nil =>
    rw [Nat.le_zero.mp hk]
    rfl
  | cons b s ih =>
    have hlen : offset + 1 + s.length = offset + (b :: s).length := by
      rw [List.length_cons]
      omega
    cases skip with
    | succ skip =>
      rw [List.cons_append, scanLoop, ih (Nat.le_of_succ_le_succ hk) h, hlen]
      rfl
    | zero =>
      have hlex : lexeme b (s ++ t) = lexeme b s := by
        refine lexeme_append ht fun kind skip text hbad ↦ ?_
        rw [scanLoop, hbad] at h
        cases h
      rw [List.cons_append, scanLoop, scanLoop, hlex]
      rw [scanLoop] at h
      cases hl : lexeme b s with
      | blank =>
        rw [hl] at h
        dsimp only at h ⊢
        rw [ih (Nat.zero_le _) h, hlen]
      | token kind text =>
        have hle := length_le_of_lexeme hl
        rw [hl] at h
        dsimp only at h ⊢
        rw [scanLoop_eq_after] at h ⊢
        rw [ih (by omega) h, hlen, Scan.after_after, scanLoop_eq_after [_]]
        rfl
      | bad kind skip text => rw [hl] at h; cases h

/-- The tokens of a text and a closed one after it are those of the two. -/
theorem scanFrom_append (ht : Closed t) {offset : Nat} (h : (scanFrom offset s).error = none) :
    scanFrom offset (s ++ t) =
      (scanFrom (offset + s.length) t).after (scanFrom offset s).tokens :=
  scanLoop_append ht (Nat.zero_le _) h

/-! ### Offsets -/

/-- A token without its place. -/
def word (t : Token) : TokenKind × Text := (t.kind, t.text)

/-- Where a text starts changes neither the words that it is scanned into nor whether it is. -/
private theorem word_scanLoop (o o' skip : Nat) (s : Text) :
    (scanLoop [] o skip s).tokens.map word = (scanLoop [] o' skip s).tokens.map word ∧
      ((scanLoop [] o skip s).error = none ↔ (scanLoop [] o' skip s).error = none) := by
  induction s generalizing o o' skip with
  | nil => exact ⟨rfl, Iff.rfl⟩
  | cons b s ih =>
    cases skip with
    | succ skip => exact ih (o + 1) (o' + 1) skip
    | zero =>
      rw [scanLoop, scanLoop]
      cases lexeme b s with
      | blank => exact ih (o + 1) (o' + 1) 0
      | token kind text =>
        obtain ⟨hw, he⟩ := ih (o + 1) (o' + 1) (text.length - 1)
        dsimp only
        rw [scanLoop_eq_after, scanLoop_eq_after [⟨kind, o', text⟩]]
        refine ⟨?_, he⟩
        simp [hw, word]
      | bad kind skip text => simp

/-- A text that is scanned from one place is scanned into the same words from any other. -/
theorem word_scanFrom {o : Nat} {ts : List Token} (h : scanFrom o s = ⟨ts, none⟩) (o' : Nat) :
    ∃ us, scanFrom o' s = ⟨us, none⟩ ∧ us.map word = ts.map word := by
  obtain ⟨hw, he⟩ := word_scanLoop o o' 0 s
  rw [scanFrom] at h
  rw [h] at hw he
  refine ⟨(scanFrom o' s).tokens, ?_, hw.symm⟩
  rw [← he.mp rfl]
  rfl

end Ravel.Token
