import Ravel.Token.Scan

/-!
# The tokens of a source

Every token of a scan is the lexeme of a place of the source (`mem_tokens_scan`). It is a verb or
a parenthesis of one byte, or a number run in which no digit group is oversize
(`lexeme_eq_token`).
-/

namespace Ravel.Token

/-- The kinds of the tokens that literals are. -/
def isLiteral (t : Token) : Bool := t.kind = .number || t.kind = .vector

/-- The number of integers that a token is written with. -/
def integers (t : Token) : Nat := (digitGroups t.text).length

/-- The number of integers in the longest literal of a source. -/
def longestLiteral (source : Text) : Nat :=
  ((scan source).tokens.filter isLiteral).foldr (fun t n ↦ max t.integers n) 0

/-! ### Tokens and lexemes -/

/-- A scan adds to the tokens already found the lexemes of places of the text. -/
private theorem mem_tokens_scanLoop {found : List Token} {offset skip : Nat} {s : Text} {t : Token}
    (h : t ∈ (scanLoop found offset skip s).tokens) :
    t ∈ found ∨ ∃ before b rest, s = before ++ b :: rest ∧ lexeme b rest = .token t.kind t.text ∧
      t.offset = (offset + before.length : Nat) := by
  induction s generalizing found offset skip with
  | nil => exact .inl (List.mem_reverse.mp h)
  | cons c s ih =>
    -- what is found further on is found at the same place, one byte later
    have hlater {found' : List Token} {skip' : Nat}
        (h : t ∈ (scanLoop found' (offset + 1) skip' s).tokens) :
        t ∈ found' ∨ ∃ before b rest, c :: s = before ++ b :: rest ∧
          lexeme b rest = .token t.kind t.text ∧ t.offset = (offset + before.length : Nat) := by
      rcases ih h with hf | ⟨before, b, rest, rfl, hl, ho⟩
      · exact .inl hf
      · refine .inr ⟨c :: before, b, rest, rfl, hl, ?_⟩
        rw [ho, List.length_cons]
        omega
    cases skip with
    | succ skip => exact hlater h
    | zero =>
      rw [scanLoop] at h
      cases hl : lexeme c s with
      | blank =>
        rw [hl] at h
        exact hlater h
      | token kind text =>
        rw [hl] at h
        rcases hlater h with hf | hx
        · rcases List.mem_cons.mp hf with rfl | hf
          · exact .inr ⟨[], c, s, rfl, hl, rfl⟩
          · exact .inl hf
        · exact .inr hx
      | bad kind skip text =>
        rw [hl] at h
        exact .inl (List.mem_reverse.mp h)

/-- The tokens of a source are lexemes of its places. -/
theorem mem_tokens_scan {source : Text} {t : Token} (h : t ∈ (scan source).tokens) :
    ∃ before b rest, source = before ++ b :: rest ∧ lexeme b rest = .token t.kind t.text ∧
      t.offset = before.length := by
  rcases mem_tokens_scanLoop h with hf | ⟨before, b, rest, hs, hl, ho⟩
  · exact absurd hf List.not_mem_nil
  · exact ⟨before, b, rest, hs, hl, by rw [ho, Nat.zero_add]⟩

/-- The lexemes that are tokens. -/
theorem lexeme_eq_token {b : UInt8} {rest text : Text} {kind : TokenKind}
    (h : lexeme b rest = .token kind text) :
    ((kind = .verb ∨ kind = .leftParen ∨ kind = .rightParen) ∧ text = [b]) ∨
      ((kind = .number ∨ kind = .vector) ∧ text = numberRun (b :: rest) ∧
        ∀ g ∈ digitGroups text, isOversize g.2 = false) := by
  unfold lexeme at h
  split at h
  · cases h
  · split at h
    · unfold numberLexeme at h
      dsimp only at h
      split at h
      · cases h
      · next hg =>
        obtain ⟨rfl, rfl⟩ := Lexeme.token.inj h
        refine .inr ⟨?_, rfl, fun g hm ↦ by simpa using List.find?_eq_none.mp hg g hm⟩
        split
        · exact .inr rfl
        · exact .inl rfl
    · split at h
      · cases h
        exact .inl ⟨.inl rfl, rfl⟩
      · split at h
        · cases h
          exact .inl ⟨.inr (.inl rfl), rfl⟩
        · split at h
          · cases h
            exact .inl ⟨.inr (.inr rfl), rfl⟩
          · cases h

/-- The bytes of number runs. -/
def isDigitOrBlank (b : UInt8) : Bool := Text.isDigit b || isBlank b

/-- A number run is what the text starts with. -/
theorem numberRun_isPrefix (s : Text) : numberRun s <+: s := by
  have hrun : numberRun s <+: s.takeWhile isDigitOrBlank := by
    rw [numberRun, Text.dropWhileEnd, ← List.reverse_suffix, List.reverse_reverse]
    exact List.dropWhile_suffix _
  exact hrun.trans (List.takeWhile_prefix _)

/-- A number run is made of digits and blanks. -/
theorem isDigitOrBlank_of_mem_numberRun {s : Text} {b : UInt8} (h : b ∈ numberRun s) :
    isDigitOrBlank b := by
  rw [numberRun, Text.dropWhileEnd, List.mem_reverse] at h
  have hm := (List.dropWhile_sublist _).subset h
  exact List.all_eq_true.mp List.all_takeWhile b (List.mem_reverse.mp hm)

/-! ### What is known of every token of a source -/

/-- The tokens of a source are those of a scan without error. -/
theorem scan_of_tokenize {source : Text} {tokens : List Token} (h : tokenize source = .ok tokens) :
    scan source = ⟨tokens, none⟩ := by
  unfold tokenize at h
  split at h
  · next hs =>
    cases h
    exact hs
  · cases h

/-- The error of a source without tokens is that of its scan. -/
theorem scan_of_tokenize_error {source : Text} {e : ScanError} (h : tokenize source = .error e) :
    scan source = ⟨(scan source).tokens, some e⟩ := by
  unfold tokenize at h
  split at h
  · cases h
  · next hs =>
    cases h
    rw [hs]

variable {source : Text} {t : Token}

/-- The kinds of tokens that a scan gives, with their texts: no verb or parenthesis is without
text, and a literal is a number run. -/
theorem kind_of_mem_tokens (h : t ∈ (scan source).tokens) :
    ((t.kind = .verb ∨ t.kind = .leftParen ∨ t.kind = .rightParen) ∧ t.text ≠ []) ∨
      (t.isLiteral ∧ ∃ s, t.text = numberRun s) := by
  obtain ⟨before, b, rest, -, hl, -⟩ := mem_tokens_scan h
  rcases lexeme_eq_token hl with ⟨hk, ht⟩ | ⟨hk, ht, -⟩
  · exact .inl ⟨hk, by rw [ht]; exact List.cons_ne_nil b []⟩
  · refine .inr ⟨?_, b :: rest, ht⟩
    rcases hk with hk | hk <;> simp [isLiteral, hk]

/-- No token of a source stands for its end. -/
theorem kind_ne_eof_of_mem_tokens (h : t ∈ (scan source).tokens) : t.kind ≠ .eof := by
  rcases kind_of_mem_tokens h with ⟨hk | hk | hk, -⟩ | ⟨hk, -⟩
  · rw [hk]; nofun
  · rw [hk]; nofun
  · rw [hk]; nofun
  · intro he
    simp [isLiteral, he] at hk

/-- No token is longer than its source. -/
theorem length_text_le_of_mem_tokens (h : t ∈ (scan source).tokens) :
    t.text.length ≤ source.length := by
  obtain ⟨before, b, rest, rfl, hl, -⟩ := mem_tokens_scan h
  rw [List.length_append, List.length_cons]
  rcases lexeme_eq_token hl with ⟨-, ht⟩ | ⟨-, ht, -⟩
  · rw [ht, List.length_singleton]
    omega
  · have hp := (numberRun_isPrefix (b :: rest)).length_le
    rw [← ht, List.length_cons] at hp
    omega

/-- A literal has no more integers than the longest literal. -/
theorem integers_le_longestLiteral (h : t ∈ (scan source).tokens) (hl : t.isLiteral) :
    t.integers ≤ longestLiteral source := by
  have hfold (ts : List Token) (ht : t ∈ ts) :
      t.integers ≤ ts.foldr (fun t n ↦ max t.integers n) 0 := by
    induction ts with
    | nil => exact absurd ht List.not_mem_nil
    | cons u ts ih =>
      rw [List.foldr_cons]
      rcases List.mem_cons.mp ht with rfl | ht
      · exact Nat.le_max_left _ _
      · exact Nat.le_trans (ih ht) (Nat.le_max_right _ _)
  exact hfold _ (List.mem_filter.mpr ⟨h, hl⟩)

end Ravel.Token
