import Ravel.Proofs.Literal

/-!
# Numerals

The numerals of a text are its groups of digits. Putting separators between texts neither joins nor
loses numerals (`Text.numerals_join`), and the decimal form of a number that is not negative is one
numeral that reads back as the number (`Text.readInt64?_ofInt64`). A text of digits and blanks is
therefore a literal for the numbers that its numerals are (`Noun.ofLiteral_of_numerals`).
-/

namespace Ravel

namespace Text

/-- The groups of digits in a text, in their order. -/
def numerals (s : Text) : List Text := (s.splitOnP fun b ↦ !isDigit b).filter (!·.isEmpty)

/-- The empty text has no numerals. -/
theorem numerals_nil : numerals [] = [] := rfl

/-- A byte that is no digit ends a numeral. -/
theorem numerals_append_cons {b : UInt8} (hb : isDigit b = false) (s t : Text) :
    numerals (s ++ b :: t) = numerals s ++ numerals t := by
  rw [numerals, List.splitOnP_append_cons s t (by simp [hb]), List.filter_append]
  rfl

/-- A byte that is no digit starts no numeral. -/
theorem numerals_cons {b : UInt8} (hb : isDigit b = false) (s : Text) :
    numerals (b :: s) = numerals s :=
  numerals_append_cons hb [] s

/-- A row of digits is one numeral. -/
theorem numerals_of_digits {s : Text} (hne : s ≠ []) (hs : ∀ b ∈ s, isDigit b) :
    numerals s = [s] := by
  rw [numerals, List.splitOnP_eq_singleton fun b hb ↦ by simp [hs b hb]]
  cases s with
  | nil => exact absurd rfl hne
  | cons b s => rfl

/-- Bytes without digits before a text add no numerals. -/
theorem numerals_append_left {s : Text} (hs : ∀ b ∈ s, isDigit b = false) (t : Text) :
    numerals (s ++ t) = numerals t := by
  induction s with
  | nil => rfl
  | cons b s ih =>
    obtain ⟨hb, hrest⟩ := List.forall_mem_cons.mp hs
    rw [List.cons_append, numerals_cons hb, ih hrest]

/-- Bytes without digits after a text add no numerals. -/
theorem numerals_append_right (s : Text) {t : Text} (ht : ∀ b ∈ t, isDigit b = false) :
    numerals (s ++ t) = numerals s := by
  cases t with
  | nil => rw [List.append_nil]
  | cons b t =>
    obtain ⟨hb, hrest⟩ := List.forall_mem_cons.mp ht
    have hnone : numerals t = [] := by
      rw [← List.append_nil t, numerals_append_left hrest, numerals_nil]
    rw [numerals_append_cons hb, hnone, List.append_nil]

/-- A text that keeps what is before it apart from what is after it: bytes, but no digits. -/
structure Separates (s : Text) : Prop where
  nonempty : s ≠ []
  no_digit : ∀ b ∈ s, isDigit b = false

/-- A byte that is no digit separates numerals. -/
theorem separates_singleton {b : UInt8} (hb : isDigit b = false) : Separates [b] :=
  ⟨List.cons_ne_nil b [], List.forall_mem_singleton.mpr hb⟩

/-- A separator separates just as well when repeated. -/
theorem Separates.times {s : Text} (h : s.Separates) (n : Nat) : (times (n + 1) s).Separates := by
  constructor
  · simp [Text.times, h.nonempty, List.replicate_succ]
  · intro b hb
    obtain ⟨t, ht, hb⟩ := List.mem_flatten.mp hb
    rw [List.eq_of_mem_replicate ht] at hb
    exact h.no_digit b hb

/-- The numerals of texts with a separator between them are those of the texts. -/
theorem numerals_join {separator : Text} (hs : separator.Separates) (parts : List Text) :
    numerals (join separator parts) = parts.flatMap numerals := by
  unfold join
  induction parts with
  | nil => rfl
  | cons s parts ih =>
    cases parts with
    | nil => simp
    | cons t parts =>
      obtain ⟨b, rest, rfl⟩ := List.exists_cons_of_ne_nil hs.nonempty
      obtain ⟨hb, hrest⟩ := List.forall_mem_cons.mp hs.no_digit
      rw [List.intercalate_cons_cons, List.append_assoc, List.cons_append, numerals_append_cons hb,
        numerals_append_left hrest, ih]
      rfl

/-! ### Decimal forms -/

/-- A decimal form has digits only. -/
theorem isDigit_of_mem_ofNat {n : Nat} {b : UInt8} (h : b ∈ ofNat n) : isDigit b := by
  obtain ⟨c, hc, rfl⟩ := List.mem_map.mp h
  have hc : c.isDigit := Nat.isDigit_of_mem_toDigits (by decide) (by decide) hc
  simp only [Char.isDigit, Bool.and_eq_true, decide_eq_true_eq, ge_iff_le,
    UInt32.le_iff_toNat_le] at hc
  have h0 : '0'.val.toNat = 48 := rfl
  have h9 : '9'.val.toNat = 57 := rfl
  simp only [isDigit, Char.toUInt8, Bool.and_eq_true, decide_eq_true_eq, UInt8.le_iff_toNat_le,
    UInt32.toNat_toUInt8, UInt8.reduceToNat]
  omega

/-- A decimal form has a digit at least. -/
theorem ofNat_ne_nil (n : Nat) : ofNat n ≠ [] := by
  rw [ofNat, ne_eq, List.map_eq_nil_iff]
  exact Nat.toDigits_ne_nil

/-- The digits of a number have its value. -/
private theorem digitsValue_ofNat (n : Nat) : digitsValue (ofNat n) = n := by
  have hfold (cs : List Char) (hcs : ∀ c ∈ cs, c.toNat < 256) (k : Nat) :
      (cs.map Char.toUInt8).foldl (fun n b ↦ n * 10 + (b.toNat - 48)) k =
        Nat.ofDigitChars 10 cs k := by
    induction cs generalizing k with
    | nil => rfl
    | cons c cs ih =>
      obtain ⟨hc, hrest⟩ := List.forall_mem_cons.mp hcs
      have hbyte : c.toUInt8.toNat = c.toNat := by
        rw [Char.toUInt8, UInt32.toNat_toUInt8]
        exact Nat.mod_eq_of_lt hc
      rw [List.map_cons, List.foldl_cons, ih hrest, Nat.ofDigitChars_cons, hbyte, Nat.mul_comm]
      rfl
  rw [digitsValue, ofNat, hfold, Nat.ofDigitChars_ten_toDigits]
  intro c hc
  have hd : c.isDigit := Nat.isDigit_of_mem_toDigits (by decide) (by decide) hc
  simp only [Char.isDigit, Bool.and_eq_true, decide_eq_true_eq, ge_iff_le,
    UInt32.le_iff_toNat_le] at hd
  have h9 : '9'.val.toNat = 57 := rfl
  have hn : c.toNat = c.val.toNat := rfl
  omega

private theorem signed_of_digits {s : Text} (hs : ∀ b ∈ s, isDigit b) : signed s = (false, s) := by
  unfold signed
  split
  · exact absurd (hs 43 List.mem_cons_self) (by decide)
  · exact absurd (hs 45 List.mem_cons_self) (by decide)
  · rfl

/-- A row of digits is read as its value, if that is a 64-bit integer. -/
theorem readInt64?_of_digits {s : Text} (hne : s ≠ []) (hs : ∀ b ∈ s, isDigit b) :
    readInt64? s = toInt64? (digitsValue s) := by
  have hall : s.all isDigit = true := List.all_eq_true.mpr hs
  have hempty : s.isEmpty = false := by simpa using hne
  simp [readInt64?, signed_of_digits hs, hall, hempty]

/-- A 64-bit integer is one when taken as an integer. -/
theorem toInt64?_toInt (x : Int64) : toInt64? x.toInt = some x := by
  rw [toInt64?, if_pos ⟨x.le_toInt, x.toInt_lt⟩, Int64.ofInt_toInt]

/-- The decimal form of a number that is not negative is a row of digits. -/
theorem ofInt64_of_nonneg {x : Int64} (hx : 0 ≤ x.toInt) : ofInt64 x = ofNat x.toInt.toNat := by
  rw [ofInt64, ofInt, if_neg (by omega)]
  congr 1
  omega

/-- The decimal form of a number that is not negative is one numeral. -/
theorem numerals_ofInt64 {x : Int64} (hx : 0 ≤ x.toInt) : numerals (ofInt64 x) = [ofInt64 x] := by
  rw [ofInt64_of_nonneg hx]
  exact numerals_of_digits (ofNat_ne_nil _) fun b hb ↦ isDigit_of_mem_ofNat hb

/-- The decimal form of a number that is not negative is read as the number. -/
theorem readInt64?_ofInt64 {x : Int64} (hx : 0 ≤ x.toInt) : readInt64? (ofInt64 x) = some x := by
  rw [ofInt64_of_nonneg hx,
    readInt64?_of_digits (ofNat_ne_nil _) fun b hb ↦ isDigit_of_mem_ofNat hb, digitsValue_ofNat,
    Int.toNat_of_nonneg hx, toInt64?_toInt]

/-- The decimal form of a 64-bit integer is within the 64-bit integers. -/
theorem isOversize_ofInt64 {x : Int64} (hx : 0 ≤ x.toInt) :
    Token.isOversize (ofInt64 x) = false := by
  have hlt := x.toInt_lt
  rw [ofInt64_of_nonneg hx, Token.isOversize, digitsValue_ofNat, decide_eq_false_iff_not]
  omega

/-- What a row of digits is read as is not negative. -/
private theorem nonneg_of_readInt64? {s : Text} (hs : ∀ b ∈ s, isDigit b) {x : Int64}
    (h : readInt64? s = some x) : 0 ≤ x.toInt := by
  have hne : s ≠ [] := by
    rintro rfl
    cases h
  rw [readInt64?_of_digits hne hs, toInt64?] at h
  split at h
  · next hr =>
    cases h
    rw [Int64.toInt_ofInt_of_le (by omega) (by omega)]
    omega
  · cases h

/-- The numerals of a text are rows of digits. -/
theorem isDigit_of_mem_numerals {s group : Text} (hg : group ∈ numerals s) {b : UInt8}
    (hb : b ∈ group) : isDigit b := by
  simpa using (Token.mem_of_mem_splitOnP (List.mem_filter.mp hg).1 hb).2

/-- The numerals of a text are its digit groups. -/
theorem numerals_eq_digitGroups (s : Text) :
    numerals s = (Token.digitGroups s).map Prod.snd := by
  rw [Token.digitGroups, Token.map_snd_groupsLoop (by simp)]
  rfl

end Text

namespace Noun

/-! ### Literals of numerals -/

/-- The decimal forms of numbers that are not negative are read as the numbers. -/
private theorem readWords_map_ofInt64 {xs : List Int64} (hx : ∀ x ∈ xs, 0 ≤ x.toInt)
    (read : Array Int64) :
    readWords read (xs.map Text.ofInt64) = .ok (read ++ xs.toArray) := by
  induction xs generalizing read with
  | nil => simp [readWords]
  | cons x xs ih =>
    obtain ⟨h0, hrest⟩ := List.forall_mem_cons.mp hx
    rw [List.map_cons, readWords, Text.readInt64?_ofInt64 h0]
    dsimp only
    rw [ih hrest]
    simp

/-- Rows of digits are read as numbers that are not negative. -/
private theorem nonneg_of_readWords {words : List Text} (hw : ∀ s ∈ words, ∀ b ∈ s, Text.isDigit b)
    {read data : Array Int64} (hread : ∀ x ∈ read, 0 ≤ x.toInt)
    (h : readWords read words = .ok data) : ∀ x ∈ data, 0 ≤ x.toInt := by
  induction words generalizing read with
  | nil =>
    cases h
    exact hread
  | cons word words ih =>
    obtain ⟨hword, hrest⟩ := List.forall_mem_cons.mp hw
    rw [readWords] at h
    cases hx : Text.readInt64? word with
    | none => rw [hx] at h; cases h
    | some x =>
      rw [hx] at h
      refine ih hrest (fun y hy ↦ ?_) h
      rcases Array.mem_push.mp hy with hy | rfl
      · exact hread y hy
      · exact Text.nonneg_of_readInt64? hword hx

/-- A text of digits and blanks is a literal for the numbers that its numerals are. -/
theorem ofLiteral_of_numerals {s : Text} (hs : ∀ b ∈ s, Token.isDigitOrBlank b)
    {xs : Array Int64} (hne : xs ≠ #[]) (hx : ∀ x ∈ xs, 0 ≤ x.toInt)
    (hn : s.numerals = xs.toList.map Text.ofInt64) : ofLiteral s = .ok (ofElements xs) := by
  have hwords : s.words = xs.toList.map Text.ofInt64 := by
    rw [Token.words_eq_digitGroups hs, ← Text.numerals_eq_digitGroups, hn]
  refine ofLiteral_eq_ok_iff.mpr ⟨?_, xs, ?_, rfl⟩
  · rw [hwords]
    simpa using hne
  · rw [hwords, readWords_map_ofInt64 fun x hm ↦ hx x (Array.mem_toList_iff.mp hm)]
    simp

/-- The nouns that literals denote: elements that are not negative, at least one, and a scalar if it
is the only one. -/
structure Literal (a : Noun) : Prop where
  nonempty : a.data ≠ #[]
  nonneg : ∀ x ∈ a.data, 0 ≤ x.toInt
  eq_ofElements : a = ofElements a.data

/-- The noun of a literal of a source is one that literals denote. -/
theorem literal_of_mem_tokens {source : Text} {t : Token} {a : Noun}
    (h : t ∈ (Token.scan source).tokens) (hl : t.isLiteral) (ha : ofLiteral t.text = .ok a) :
    a.Literal := by
  rcases Token.kind_of_mem_tokens h with ⟨hk, -⟩ | ⟨-, s, ht⟩
  · rcases hk with hk | hk | hk <;> simp [Token.isLiteral, hk] at hl
  · have hwords : t.text.words = t.text.numerals := by
      rw [Token.words_eq_digitGroups, ← Text.numerals_eq_digitGroups]
      intro b hb
      rw [ht] at hb
      exact Token.isDigitOrBlank_of_mem_numberRun hb
    obtain ⟨hne, xs, hr, rfl⟩ := ofLiteral_eq_ok_iff.mp ha
    rw [hwords] at hne hr
    refine ⟨?_, nonneg_of_readWords (fun g hg b hb ↦ ?_) (by simp) hr, rfl⟩
    · rintro rfl
      have hnone : t.text.numerals.length = 0 := by simpa using (size_of_readWords hr).symm
      exact hne (List.eq_nil_of_length_eq_zero hnone)
    · exact Text.isDigit_of_mem_numerals hg hb

end Noun

end Ravel
