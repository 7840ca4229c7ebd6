import Ravel.Proofs.Lexemes
import Ravel.Proofs.Viability

/-!
# Literals as they are scanned and as they are read

The scan cuts a literal into groups of digits at the blanks it knows and refuses a group that is no
64-bit integer. To read the literal as a noun, it is cut once more at white space and each word is
converted. On every literal of a source the two agree (`Token.Row.ofLiteral_eq`), so that the parser
never takes offence at the text of a literal: where it reports one, it reports any other literal in
its place as well (`Tree.misplaced_of_parseLoop`).
-/

namespace Ravel

namespace Text

variable {group : Text}

/-- The 64-bit integer that a group of digits denotes. -/
def numeral (group : Text) : Int64 := Int64.ofNat (digitsValue group)

private theorem toInt_numeral (h : Token.isOversize group = false) :
    (numeral group).toInt = digitsValue group := by
  have hlt : digitsValue group < 0x8000000000000000 := by simpa [Token.isOversize] using h
  exact Int64.toInt_ofNat_of_lt hlt

private theorem readInt64?_eq_numeral (hd : group.Digits) (h : Token.isOversize group = false) :
    readInt64? group = some (numeral group) := by
  rw [readInt64?_of_digits hd.nonempty hd.isDigit, ← toInt_numeral h, toInt64?_toInt]

end Text

/-- Groups that the scan does not refuse are read as the integers that they denote. -/
private theorem Noun.readWords_groups {gs : List Text} (hd : ∀ g ∈ gs, g.Digits)
    (hfits : ∀ g ∈ gs, Token.isOversize g = false) (read : Array Int64) :
    readWords read gs = .ok (read ++ (gs.map Text.numeral).toArray) := by
  induction gs generalizing read with
  | nil => simp [readWords]
  | cons g gs ih =>
    have hg := Text.readInt64?_eq_numeral (hd g List.mem_cons_self) (hfits g List.mem_cons_self)
    have hrest := ih (fun g' hg' ↦ hd g' (List.mem_cons_of_mem g hg'))
      (fun g' hg' ↦ hfits g' (List.mem_cons_of_mem g hg')) (read.push (Text.numeral g))
    rw [readWords, hg]
    simpa using hrest

namespace Token

variable {gs : List Text} {s source : Text} {t : Token}

private theorem Row.digits (h : Row gs s) : ∀ g ∈ gs, g.Digits := by
  induction h with
  | one hg => simpa using hg
  | more hg hgap h ih => exact List.forall_mem_cons.mpr ⟨hg, ih⟩

/-- A row that the scan does not refuse is read as the integers that its groups denote. -/
theorem Row.ofLiteral_eq (h : Row gs s) (hfits : ∀ g ∈ gs, isOversize g = false) :
    Noun.ofLiteral s = .ok (Noun.ofElements (gs.map Text.numeral).toArray) := by
  have hwords : s.words = gs := by
    rw [words_eq_digitGroups h.isDigitOrBlank, ← Text.numerals_eq_digitGroups, h.numerals_eq]
  apply Noun.ofLiteral_eq_ok_iff.mpr
  rw [hwords]
  refine ⟨h.groups_ne_nil, _, Noun.readWords_groups h.digits hfits #[], ?_⟩
  simp

/-- What the groups of a literal have to do with the noun that it is read as: the elements are the
decimal values of the groups, and the noun is a scalar if there is one group and else a vector. -/
structure Denotes (gs : List Text) (a : Noun) : Prop where
  values : a.data.toList.map Int64.toInt = gs.map fun group ↦ (Text.digitsValue group : Int)
  scalar : gs.length = 1 → a.shape = []
  vector : gs.length ≠ 1 → a.shape = [Int64.ofNat gs.length]

private theorem Row.denotes (h : Row gs s) (hfits : ∀ g ∈ gs, isOversize g = false) :
    ∃ a, Noun.ofLiteral s = .ok a ∧ Denotes gs a := by
  refine ⟨_, h.ofLiteral_eq hfits, ?_, ?_, ?_⟩
  · simp only [Noun.ofElements, List.map_map]
    apply List.map_congr_left
    intro g hg
    exact Text.toInt_numeral (hfits g hg)
  · intro hone
    simp [Noun.ofElements, hone]
  · intro hmany
    simp [Noun.ofElements, hmany]

/-- The elements are between 0 and 2^63-1. -/
private theorem Denotes.bounds {a : Noun} (h : Denotes gs a) :
    ∀ x ∈ a.data, 0 ≤ x.toInt ∧ x.toInt ≤ 0x7fffffffffffffff := by
  intro x hx
  have hmem : x.toInt ∈ gs.map fun group ↦ (Text.digitsValue group : Int) := by
    rw [← h.values]
    exact List.mem_map_of_mem (Array.mem_toList_iff.mpr hx)
  obtain ⟨group, -, hvalue⟩ := List.mem_map.mp hmem
  have hlt := x.toInt_lt
  omega

/-- A literal that a scan finds is a row of groups that are 64-bit integers: one of them in a
number, and more in a vector. -/
private theorem Scans.exists_row {offset : Nat} {r : Scan} (h : Scans offset s r)
    (ht : t ∈ r.tokens) (hl : t.isLiteral) :
    ∃ gs, Row gs t.text ∧ (∀ g ∈ gs, isOversize g = false) ∧
      (t.kind = .number → gs.length = 1) ∧ (t.kind = .vector → 2 ≤ gs.length) := by
  induction h with
  | done offset => simp at ht
  | blank hb h ih => exact ih ht
  | @mark offset kind b s r hb h ih =>
    rw [Scan.tokens_after, List.singleton_append, List.mem_cons] at ht
    rcases ht with rfl | ht
    · cases hb <;> cases hl
    · exact ih ht
  | @literal offset gs run rest r hrow hfits hc h ih =>
    rw [Scan.tokens_after, List.singleton_append, List.mem_cons] at ht
    rcases ht with rfl | ht
    · have hpos := List.length_pos_iff.mpr hrow.groups_ne_nil
      refine ⟨gs, hrow, hfits, ?_⟩
      by_cases hmany : 1 < gs.length
      · simp [hmany]
        omega
      · simp [hmany]
        omega
    · exact ih ht
  | oversize hb h => simp at ht
  | unknown hb => simp at ht

private theorem exists_row_of_mem_tokens (ht : t ∈ (scan source).tokens) (hl : t.isLiteral) :
    ∃ gs, Row gs t.text ∧ (∀ g ∈ gs, isOversize g = false) ∧
      (t.kind = .number → gs.length = 1) ∧ (t.kind = .vector → 2 ≤ gs.length) :=
  (scans_scanFrom 0 source).exists_row ht hl

private theorem length_numerals_le_of_mem_tokens (ht : t ∈ (scan source).tokens) :
    t.text.numerals.length ≤ source.length := by
  rw [Text.numerals_eq_digitGroups, List.length_map]
  exact Nat.le_trans (length_digitGroups_le t.text) (length_text_le_of_mem_tokens ht)

private theorem usable_of_mem_tokens (ht : t ∈ (scan source).tokens) : Tree.Usable t := by
  rcases kind_of_mem_tokens ht with ⟨hk | hk | hk, hne⟩ | ⟨hl, -⟩
  · exact .verb hk hne
  · exact .leftParen hk
  · exact .rightParen hk
  · obtain ⟨gs, hrow, hfits, -⟩ := exists_row_of_mem_tokens ht hl
    exact .literal (by simpa [isLiteral] using hl) ⟨_, hrow.ofLiteral_eq hfits⟩

end Token

namespace Tree

variable {limit : Int64} {before rest : List Token} {frames : List Frame} {term : Option Tree}
  {token : Token}

/-- A parse that ends with an unexpected token ends at that token, which is not the end of the
input. -/
private theorem eq_of_finish_unexpected {blamed : Token}
    (h : finish token frames term = .error (.error (.misplaced .unexpectedToken blamed))) :
    token.kind ≠ .eof ∧ blamed = token := by
  have hunexpected (hx : ParseError.unexpected token = .misplaced .unexpectedToken blamed) :
      token.kind ≠ .eof ∧ blamed = token := by
    unfold ParseError.unexpected at hx
    split at hx
    · cases hx
    · next hk =>
      cases hx
      exact ⟨hk, rfl⟩
  unfold finish at h
  split at h
  · apply hunexpected
    simpa using h
  · split at h
    · cases h
    · split at h
      · cases h
      · cases h
      · apply hunexpected
        simpa using h
    · split at h
      · cases h
      · apply hunexpected
        simpa using h
    · apply hunexpected
      simpa using h

/-- After a term a literal is reported, whatever its text, unless a verb without a mark is to be
closed. -/
private theorem parseLoop_literal_of_term (hk : token.kind = .number ∨ token.kind = .vector)
    (stop : Int) (t : Tree) :
    parseLoop limit stop frames (some t) (token :: rest) =
      match closeDyads frames t with
      | .error f => .error (.fault f)
      | .ok _ => .error (.error (.misplaced .unexpectedToken token)) := by
  have hfinish : parseLoop limit stop frames (some t) (token :: rest) =
      finish token frames (some t) := by
    rcases hk with hk | hk <;> simp only [parseLoop, hk]
  have hunexpected : ParseError.unexpected token = .misplaced .unexpectedToken token := by
    rcases hk with hk | hk <;> simp [ParseError.unexpected, hk]
  rw [hfinish, finish]
  cases closeDyads frames t with
  | error f => rfl
  | ok p =>
    obtain ⟨inner, u⟩ := p
    cases inner with
    | nil => rcases hk with hk | hk <;> simp only [hk, hunexpected]
    | cons frame outer =>
      cases frame with
      | paren opening => rcases hk with hk | hk <;> simp only [hk, hunexpected]
      | monad mark offset => simp only [hunexpected]
      | dyad left mark offset => simp only [hunexpected]

/-- Where the parser reports a literal among tokens that an expression can have, it does so because
of the place: with any other text the literal is reported there too. -/
theorem misplaced_of_parseLoop {stop : Int}
    (hc : Consistent (2 * limit + 2).toInt before frames term) (hf : ∀ f ∈ frames, f.isMarked)
    (hu : ∀ t ∈ rest, Usable t) (hk : token.kind = .number ∨ token.kind = .vector)
    (h : parseLoop limit stop frames term rest =
      .error (.error (.misplaced .unexpectedToken token))) :
    ∃ read unread, rest = read ++ token :: unread ∧ ∀ text stop',
      parseLoop limit stop' frames term (read ++ { token with text } :: unread) =
        .error (.error (.misplaced .unexpectedToken { token with text })) := by
  induction rest generalizing before frames term with
  | nil =>
    have hend := eq_of_finish_unexpected h
    exact absurd rfl hend.1
  | cons first rest ih =>
    obtain ⟨hfirst, hrest⟩ := List.forall_mem_cons.mp hu
    cases hfirst.meets stop hc hf with
    | step hs =>
      have hmarked := hs.isMarked (fun hk ↦ by cases hfirst <;> simp_all) hf
      rw [hs.parseLoop_eq] at h
      obtain ⟨read, unread, rfl, hany⟩ := ih (hs.consistent hc) hmarked hrest h
      refine ⟨first :: read, unread, rfl, ?_⟩
      intro text stop'
      rw [List.cons_append, hs.parseLoop_eq]
      exact hany text stop'
    | guard hg =>
      rw [hg] at h
      cases h
    | stops hn hfin =>
      have hblamed := (eq_of_finish_unexpected (hfin ▸ h)).2
      subst hblamed
      refine ⟨[], rest, rfl, ?_⟩
      intro text stop'
      cases term with
      | none => rcases hk with hk | hk <;> simp [Place.next, hk] at hn
      | some t =>
        have hother : ({ token with text } : Token).kind = .number ∨
            ({ token with text } : Token).kind = .vector := hk
        rw [parseLoop_literal_of_term hk] at h
        rw [List.nil_append, parseLoop_literal_of_term hother]
        generalize closeDyads frames t = r at h ⊢
        cases r with
        | error f => cases h
        | ok p => rfl

/-- A literal that a parse reports is reported with any other text as well. -/
private theorem misplaced_of_parse {tokens : List Token} (hu : ∀ t ∈ tokens, Usable t)
    (hk : token.kind = .number ∨ token.kind = .vector)
    (h : parse limit tokens = .error (.error (.misplaced .unexpectedToken token))) :
    ∃ read unread, tokens = read ++ token :: unread ∧ ∀ text,
      parse limit (read ++ { token with text } :: unread) =
        .error (.error (.misplaced .unexpectedToken { token with text })) := by
  unfold parse at h
  dsimp only at h
  split at h
  · next hg =>
    have hc : Consistent (2 * limit + 2).toInt [] [] none := ⟨.nil, withinGuard_iff.mp hg⟩
    obtain ⟨read, unread, htokens, hany⟩ := misplaced_of_parseLoop hc nofun hu hk h
    refine ⟨read, unread, htokens, ?_⟩
    intro text
    rw [parse, if_pos hg]
    exact hany text _
  · cases h

end Tree

/-! ### The literals of a source -/

/-- A literal of a source that has tokens is read as the decimal values of its groups of digits, and
is never misplaced because of its text. -/
theorem Token.tokenize_literals {source : Text} {tokens : List Token}
    (h : tokenize source = .ok tokens) :
    (∀ t ∈ tokens, t.kind = .number ∨ t.kind = .vector →
      ∃ a, Noun.ofLiteral t.text = .ok a ∧
        a.data.toList.map Int64.toInt =
          t.text.numerals.map (fun group ↦ (Text.digitsValue group : Int)) ∧
        (∀ x ∈ a.data, 0 ≤ x.toInt ∧ x.toInt ≤ 0x7fffffffffffffff) ∧
        (t.kind = .number → a.shape = [] ∧ t.text.numerals.length = 1) ∧
        (t.kind = .vector → a.shape = [Int64.ofNat t.text.numerals.length] ∧
          2 ≤ t.text.numerals.length ∧
          (source.length < 0x8000000000000000 →
            (Int64.ofNat t.text.numerals.length).toInt = t.text.numerals.length))) ∧
    ∀ limit t, t.kind = .number ∨ t.kind = .vector →
      Tree.parse limit tokens = .error (.error (.misplaced .unexpectedToken t)) →
      ∃ read unread, tokens = read ++ t :: unread ∧ ∀ text,
        Tree.parse limit (read ++ { t with text } :: unread) =
          .error (.error (.misplaced .unexpectedToken { t with text })) := by
  have htokens : (scan source).tokens = tokens := by rw [scan_of_tokenize h]
  constructor
  · intro t ht hk
    rw [← htokens] at ht
    obtain ⟨gs, hrow, hfits, hnumber, hvector⟩ :=
      exists_row_of_mem_tokens ht (by simpa [isLiteral] using hk)
    obtain ⟨a, ha, hdenotes⟩ := hrow.denotes hfits
    have hlength := length_numerals_le_of_mem_tokens ht
    rw [hrow.numerals_eq] at hlength ⊢
    refine ⟨a, ha, hdenotes.values, hdenotes.bounds, ?_, ?_⟩
    · intro hkind
      exact ⟨hdenotes.scalar (hnumber hkind), hnumber hkind⟩
    · intro hkind
      have hmany := hvector hkind
      refine ⟨hdenotes.vector (by omega), hmany, ?_⟩
      intro hshort
      exact Int64.toInt_ofNat_of_lt (by omega)
  · intro limit t hk ht
    apply Tree.misplaced_of_parse _ hk ht
    intro u hu
    rw [← htokens] at hu
    exact usable_of_mem_tokens hu

/-- The vector of `1+007\t\r9223372036854775807` has two elements in spite of its zeros and blanks,
and the last number of `(1)2` stands where no literal can. -/
theorem Token.tokenize_literals_blanks :
    (∃ a, Noun.ofLiteral (Text.ofString "007\t\r9223372036854775807") = .ok a ∧
      a.data.toList.map Int64.toInt = [7, 9223372036854775807] ∧ a.shape = [2]) ∧
    ∃ read unread,
      [⟨.leftParen, 0, [40]⟩, ⟨.number, 1, [49]⟩, ⟨.rightParen, 2, [41]⟩, ⟨.number, 3, [50]⟩] =
        read ++ (⟨.number, 3, [50]⟩ : Token) :: unread ∧
      ∀ text, Tree.parse 1000 (read ++ ⟨.number, 3, text⟩ :: unread) =
        .error (.error (.misplaced .unexpectedToken ⟨.number, 3, text⟩)) := by
  constructor
  · have htokens : tokenize (Text.ofString "1+007\t\r9223372036854775807") =
        .ok [⟨.number, 0, [49]⟩, ⟨.verb, 1, [43]⟩,
          ⟨.vector, 2, Text.ofString "007\t\r9223372036854775807"⟩] := by with_unfolding_all rfl
    obtain ⟨a, ha, hvalues, -, -, hvector⟩ := (tokenize_literals htokens).1
      ⟨.vector, 2, Text.ofString "007\t\r9223372036854775807"⟩ (by simp) (.inr rfl)
    exact ⟨a, ha, hvalues, (hvector rfl).1⟩
  · have htokens : tokenize (Text.ofString "(1)2") =
        .ok [⟨.leftParen, 0, [40]⟩, ⟨.number, 1, [49]⟩, ⟨.rightParen, 2, [41]⟩,
          ⟨.number, 3, [50]⟩] := by with_unfolding_all rfl
    exact (tokenize_literals htokens).2 1000 ⟨.number, 3, [50]⟩ (.inl rfl) rfl

end Ravel
