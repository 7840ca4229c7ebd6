import Mathlib.Logic.Relation
import Ravel.Proofs.Lexemes
import Ravel.Proofs.Places

/-!
# The layout of a source

Without its blanks a source is a row of pieces: groups of digits, and other bytes one by one
(`Token.pieces`). Blanks only keep groups of digits apart, so that a change of layout that neither
joins nor parts digits leaves the pieces as they are (`Token.Edit.pieces_eq`). What a scan finds is
read off the pieces (`Token.senses_eq_readPieces`), and what a run comes to is therefore the same
(`Settings.outcome_of_relaid`).
-/

namespace Ravel

namespace Token

/-! ### Pieces -/

/-- The groups of digits of a text and its other bytes that are no blanks, in their order. -/
def pieces : Text → List Text
  | [] => []
  | b :: s =>
    if isBlank b then pieces s
    else if Text.isDigit b && s.head?.any Text.isDigit then (pieces s).modifyHead (b :: ·)
    else [b] :: pieces s

variable {b : UInt8} {s t : Text}

private theorem pieces_blank (hb : isBlank b) (s : Text) : pieces (b :: s) = pieces s := by
  rw [pieces, if_pos hb]

private theorem pieces_digit (hb : Text.isDigit b) (hs : s.head?.any Text.isDigit) :
    pieces (b :: s) = (pieces s).modifyHead (b :: ·) := by
  simp [pieces, isBlank_of_isDigit hb, hb, hs]

private theorem pieces_byte (hb : isBlank b = false)
    (hs : (Text.isDigit b && s.head?.any Text.isDigit) = false) :
    pieces (b :: s) = [b] :: pieces s := by
  simp [pieces, hb, hs]

private theorem pieces_ne_nil (h : s.head?.any Text.isDigit) : pieces s ≠ [] := by
  induction s with
  | nil => cases h
  | cons b s ih =>
    have hb : Text.isDigit b := by simpa using h
    by_cases hs : s.head?.any Text.isDigit = true
    · rw [pieces_digit hb hs]
      simpa using ih hs
    · rw [pieces_byte (isBlank_of_isDigit hb) (by simp [hs])]
      exact List.cons_ne_nil _ _

private theorem pieces_cons_append (h : Text.Apart [b] t) :
    pieces (b :: t) = pieces [b] ++ pieces t := by
  by_cases hb : isBlank b = true
  · rw [pieces_blank hb, pieces_blank hb]
    rfl
  · have hb : isBlank b = false := by simpa using hb
    have hjoin : (Text.isDigit b && t.head?.any Text.isDigit) = false := by
      rcases h with h | h
      · have hd : Text.isDigit b = false := by simpa using h
        simp [hd]
      · cases ht : t.head? with
        | none => simp
        | some c => simp [h c ht]
    rw [pieces_byte hb hjoin, pieces_byte hb (by simp)]
    rfl

/-- Texts that are apart have their pieces one after the other. -/
private theorem pieces_append (h : Text.Apart s t) : pieces (s ++ t) = pieces s ++ pieces t := by
  induction s with
  | nil => rfl
  | cons b s ih =>
    by_cases hs : s = []
    · subst hs
      exact pieces_cons_append h
    · have hrest := ih (h.of_getLast? (List.getLast?_cons_of_ne_nil hs).symm)
      have hhead : (s ++ t).head? = s.head? := List.head?_append_of_ne_nil s hs
      -- what follows `b` starts as `s` does, and so `b` joins a digit in both or in neither
      by_cases hb : isBlank b = true
      · rw [List.cons_append, pieces_blank hb, pieces_blank hb, hrest]
      · by_cases hjoin : (Text.isDigit b && s.head?.any Text.isDigit) = true
        · obtain ⟨hd, hnext⟩ := Bool.and_eq_true_iff.mp hjoin
          obtain ⟨p, ps, hps⟩ := List.exists_cons_of_ne_nil (pieces_ne_nil hnext)
          rw [List.cons_append, pieces_digit hd (by rwa [hhead]), pieces_digit hd hnext, hrest, hps]
          rfl
        · have hb : isBlank b = false := by simpa using hb
          have hjoin : (Text.isDigit b && s.head?.any Text.isDigit) = false := by simpa using hjoin
          rw [List.cons_append, pieces_byte hb (by rwa [hhead]), pieces_byte hb hjoin, hrest]
          rfl

private theorem pieces_of_blanks (h : ∀ b ∈ s, isBlank b) : pieces s = [] := by
  induction s with
  | nil => rfl
  | cons b s ih =>
    obtain ⟨hb, hrest⟩ := List.forall_mem_cons.mp h
    rw [pieces_blank hb, ih hrest]

private theorem pieces_of_digits (h : s.Digits) : pieces s = [s] := by
  obtain ⟨hne, hdigits⟩ := h
  induction s with
  | nil => exact absurd rfl hne
  | cons b s ih =>
    obtain ⟨hb, hrest⟩ := List.forall_mem_cons.mp hdigits
    cases s with
    | nil => exact pieces_byte (isBlank_of_isDigit hb) (by simp)
    | cons c s =>
      rw [pieces_digit hb (by simpa using hrest c List.mem_cons_self),
        ih (List.cons_ne_nil c s) hrest]
      rfl

/-- A text that starts with a digit is a group of digits and what is apart from it. -/
private theorem exists_digits_append (hb : Text.isDigit b) (s : Text) :
    ∃ g rest : Text, b :: s = g ++ rest ∧ g.Digits ∧ Text.Apart g rest := by
  refine ⟨(b :: s).takeWhile Text.isDigit, (b :: s).dropWhile Text.isDigit,
    List.takeWhile_append_dropWhile.symm, ⟨?_, ?_⟩, .inr ?_⟩
  · rw [List.takeWhile_cons_of_pos hb]
    exact List.cons_ne_nil _ _
  · intro c hc
    exact List.mem_takeWhile_imp hc
  · intro c hc
    have hstop := List.head?_dropWhile_not Text.isDigit (b :: s)
    rw [hc] at hstop
    simpa using hstop

/-- Digits and blanks have their numerals as pieces. -/
private theorem pieces_eq_numerals (h : ∀ b ∈ s, isDigitOrBlank b) : pieces s = s.numerals := by
  induction hn : s.length using Nat.strongRecOn generalizing s with
  | ind n ih =>
    subst hn
    cases s with
    | nil => rfl
    | cons b s =>
      obtain ⟨hb, hs⟩ := List.forall_mem_cons.mp h
      by_cases hblank : isBlank b = true
      · rw [pieces_blank hblank, Text.numerals_cons (isDigit_of_isBlank hblank)]
        exact ih s.length (Nat.lt_succ_self _) hs rfl
      · have hd : Text.isDigit b := by simpa [isDigitOrBlank, hblank] using hb
        obtain ⟨g, rest, hsplit, hg, hapart⟩ := exists_digits_append hd s
        rw [hsplit] at h ih ⊢
        have hlength := List.length_pos_iff.mpr hg.nonempty
        have hrest := ih rest.length (by rw [List.length_append]; omega)
          (fun c hc ↦ h c (List.mem_append_right g hc)) rfl
        rw [pieces_append hapart, Text.numerals_append hapart, pieces_of_digits hg,
          Text.numerals_of_digits hg.nonempty hg.isDigit, hrest]

private theorem all_isDigit_numerals (s : Text) : ∀ g ∈ s.numerals, g.all Text.isDigit := by
  intro g hg
  rw [List.all_eq_true]
  exact fun b hb ↦ Text.isDigit_of_mem_numerals hg hb

/-- After blanks a closed text goes on with no group of digits. -/
private theorem Closed.pieces_head (h : Closed t) :
    ∀ p ∈ (pieces t).head?, p.all Text.isDigit = false := by
  induction t with
  | nil => simp [pieces]
  | cons b t ih =>
    by_cases hblank : isBlank b = true
    · rw [pieces_blank hblank]
      exact ih (h.of_cons_blank hblank)
    · have hd : Text.isDigit b = false := h.isDigit_head b rfl
      rw [pieces_byte (by simpa using hblank) (by simp [hd])]
      rintro _ ⟨⟩
      simp [hd]

/-! ### What is read off pieces -/

/-- The sense of a token. -/
abbrev Sense := TokenKind × Option UInt8 × List Text

/-- The sense of the literal of some groups of digits, if there are any. -/
def literalSense (gs : List Text) : List Sense :=
  if gs = [] then []
  else [(if 1 < gs.length then .vector else .number, gs.head?.bind List.head?, gs)]

/-- The kind of the token that a piece is by itself. -/
def markKind? : Text → Option TokenKind
  | [b] =>
    if isVerb b then some .verb
    else if b = 40 then some .leftParen
    else if b = 41 then some .rightParen
    else none
  | _ => none

/-- The senses that pieces have after some groups of digits: groups that follow each other are one
literal, and the first piece that is too large or no token is an error. -/
def readPieces (gs : List Text) : List Text → Except ScanError.Kind (List Sense)
  | [] => .ok (literalSense gs)
  | p :: ps =>
    if p.all Text.isDigit then
      if isOversize p then .error .invalidNumber else readPieces (gs ++ [p]) ps
    else
      match markKind? p with
      | none => .error .unrecognizedCharacter
      | some kind => (readPieces [] ps).map (literalSense gs ++ (kind, p.head?, p.words) :: ·)

variable {gs hs ps : List Text}

/-- Groups of digits that fit are put together. -/
private theorem readPieces_groups (hd : ∀ g ∈ hs, g.all Text.isDigit)
    (hf : ∀ g ∈ hs, isOversize g = false) :
    readPieces gs (hs ++ ps) = readPieces (gs ++ hs) ps := by
  induction hs generalizing gs with
  | nil => rw [List.nil_append, List.append_nil]
  | cons g hs ih =>
    obtain ⟨hg, hrest⟩ := List.forall_mem_cons.mp hd
    obtain ⟨hfg, hfrest⟩ := List.forall_mem_cons.mp hf
    rw [List.cons_append, readPieces, if_pos hg, if_neg (by simp [hfg]), ih hrest hfrest,
      List.append_assoc, List.singleton_append]

/-- Groups of digits that no other group follows are a literal. -/
private theorem readPieces_closed (gs : List Text)
    (h : ∀ p ∈ ps.head?, p.all Text.isDigit = false) :
    readPieces gs ps = (readPieces [] ps).map (literalSense gs ++ ·) := by
  cases ps with
  | nil => simp [readPieces, literalSense, Except.map]
  | cons p ps =>
    have hp : ¬ p.all Text.isDigit = true := by simpa using h p rfl
    rw [readPieces, readPieces, if_neg hp, if_neg hp]
    cases markKind? p with
    | none => rfl
    | some kind =>
      cases readPieces [] ps with
      | error x => rfl
      | ok senses => simp [Except.map, literalSense]

private theorem literalSense_of_row {run : Text} (h : Row gs run) (offset : Int) :
    literalSense gs =
      [sense ⟨if 1 < gs.length then .vector else .number, offset, run⟩] := by
  have hhead : run.head? = gs.head?.bind List.head? := by
    cases h with
    | one hg => rfl
    | more hg hb h =>
      rw [List.append_assoc, List.head?_append_of_ne_nil _ hg.nonempty]
      rfl
  have hwords : run.words = gs := by
    rw [words_eq_digitGroups h.isDigitOrBlank, ← Text.numerals_eq_digitGroups, h.numerals_eq]
  rw [literalSense, if_neg h.groups_ne_nil, sense, hhead, hwords]

/-- What the parser sees of a scan. -/
def Scan.senses (r : Scan) : Except ScanError.Kind (List Sense) :=
  match r.error with
  | some e => .error e.kind
  | none => .ok (r.tokens.map sense)

private theorem Scan.senses_after (ts : List Token) (r : Scan) :
    (r.after ts).senses = r.senses.map (ts.map sense ++ ·) := by
  obtain ⟨tokens, error⟩ := r
  cases error with
  | none => simp [Scan.after, Scan.senses, Except.map]
  | some e => rfl

private theorem Mark.markKind?_eq {kind : TokenKind} (h : Mark kind b) :
    markKind? [b] = some kind := by
  cases h with
  | verb hb => simp [markKind?, isVerb, hb]
  | leftParen => rfl
  | rightParen => rfl

/-- What a scan finds is read off the pieces of its text. -/
private theorem Scans.senses_eq {offset : Nat} {r : Scan} (h : Scans offset s r) :
    r.senses = readPieces [] (pieces s) := by
  induction h with
  | done offset => rfl
  | blank hb h ih => rw [ih, pieces_blank hb]
  | @mark offset kind b s r hb h ih =>
    have hd := hb.isDigit_eq_false
    rw [Scan.senses_after, ih, pieces_byte hb.isBlank_eq_false (by simp [hd]), readPieces,
      if_neg (by simp [hd]), hb.markKind?_eq]
    rfl
  | @literal offset gs run rest r hrow hfits hc h ih =>
    -- what follows is closed, so that no later group of digits joins the literal
    have hpieces : pieces (run ++ rest) = gs ++ pieces rest := by
      rw [pieces_append (.inr hc.isDigit_head), pieces_eq_numerals hrow.isDigitOrBlank,
        hrow.numerals_eq]
    have hdigits : ∀ g ∈ gs, g.all Text.isDigit := by
      rw [← hrow.numerals_eq]
      exact all_isDigit_numerals run
    rw [Scan.senses_after, ih, hpieces, readPieces_groups hdigits hfits, List.nil_append,
      readPieces_closed gs hc.pieces_head, literalSense_of_row hrow offset]
    rfl
  | @oversize offset before group after hb h =>
    have hpieces : pieces (before ++ group ++ after) =
        before.numerals ++ group :: pieces after := by
      rw [List.append_assoc, pieces_append, pieces_append h.right, pieces_of_digits h.digits,
        pieces_eq_numerals hb]
      · rfl
      · exact h.left.of_head? (List.head?_append_of_ne_nil group h.digits.nonempty)
    have hgroup : group.all Text.isDigit := List.all_eq_true.mpr h.digits.isDigit
    rw [hpieces, readPieces_groups (all_isDigit_numerals before) h.fits, readPieces,
      if_pos hgroup, if_pos h.oversize]
    rfl
  | @unknown offset b s hb =>
    simp only [isLexical, Bool.or_eq_false_iff, decide_eq_false_iff_not] at hb
    obtain ⟨⟨⟨⟨hblank, hd⟩, hverb⟩, hleft⟩, hright⟩ := hb
    have hnone : markKind? [b] = none := by simp [markKind?, hverb, hleft, hright]
    rw [pieces_byte hblank (by simp [hd]), readPieces, if_neg (by simp [hd]), hnone]
    rfl

/-- What the parser sees of a source is read off its pieces. -/
theorem senses_eq_readPieces (source : Text) : senses source = readPieces [] (pieces source) := by
  have hscan : senses source = (scan source).senses := by
    unfold senses tokenize
    rcases scan source with ⟨tokens, _ | e⟩ <;> rfl
  rw [hscan]
  exact (scans_scanFrom 0 source).senses_eq

/-! ### Changes of layout -/

/-- A place between two texts lies between digits: the nearest bytes that are no blanks are digits
on both sides. -/
def BetweenDigits (before after : Text) : Prop :=
  (∃ b ∈ (before.filter (!isBlank ·)).getLast?, Text.isDigit b) ∧
    ∃ b ∈ (after.filter (!isBlank ·)).head?, Text.isDigit b

/-- One change of layout: blanks between two digits become other blanks, or blanks come or go at a
place that is not between digits. -/
inductive Edit : Text → Text → Prop where
  | respace {before gap gap' after : Text} (hl : ∃ b ∈ before.getLast?, Text.isDigit b)
      (hr : ∃ b ∈ after.head?, Text.isDigit b) (hg : Blanks gap) (hg' : Blanks gap') :
      Edit (before ++ gap ++ after) (before ++ gap' ++ after)
  | insert {before gap after : Text} (h : ¬ BetweenDigits before after)
      (hg : ∀ b ∈ gap, isBlank b) : Edit (before ++ after) (before ++ gap ++ after)
  | delete {before gap after : Text} (h : ¬ BetweenDigits before after)
      (hg : ∀ b ∈ gap, isBlank b) : Edit (before ++ gap ++ after) (before ++ after)

/-- Changes of layout, one after the other. -/
def Relaid : Text → Text → Prop := Relation.ReflTransGen Edit

private theorem apart_of_not_betweenDigits (h : ¬ BetweenDigits s t) : Text.Apart s t := by
  by_contra hapart
  simp only [Text.Apart, not_or, not_forall, Bool.not_eq_false] at hapart
  obtain ⟨⟨b, hb, hdb⟩, c, hc, hdc⟩ := hapart
  apply h
  constructor
  · obtain ⟨s, rfl⟩ := List.getLast?_eq_some_iff.mp hb
    exact ⟨b, by simp [isBlank_of_isDigit hdb], hdb⟩
  · obtain ⟨t, rfl⟩ := List.head?_eq_some_iff.mp hc
    exact ⟨c, by simp [isBlank_of_isDigit hdc], hdc⟩

private theorem pieces_gap {gap : Text} (hg : Blanks gap) (s t : Text) :
    pieces (s ++ gap ++ t) = pieces s ++ pieces t := by
  have hleft : Text.Apart s (gap ++ t) :=
    (hg.apart s).1.of_head? (List.head?_append_of_ne_nil gap hg.nonempty)
  rw [List.append_assoc, pieces_append hleft, pieces_append (hg.apart t).2,
    pieces_of_blanks hg.isBlank, List.nil_append]

private theorem pieces_insert {gap : Text} (h : ¬ BetweenDigits s t) (hg : ∀ b ∈ gap, isBlank b) :
    pieces (s ++ gap ++ t) = pieces (s ++ t) := by
  by_cases hne : gap = []
  · rw [hne, List.append_nil]
  · rw [pieces_gap ⟨hne, hg⟩, pieces_append (apart_of_not_betweenDigits h)]

/-- A change of layout leaves the pieces as they are. -/
theorem Edit.pieces_eq {a b : Text} (h : Edit a b) : pieces a = pieces b := by
  cases h with
  | respace hl hr hg hg' => rw [pieces_gap hg, pieces_gap hg']
  | insert h hg => rw [pieces_insert h hg]
  | delete h hg => rw [pieces_insert h hg]

private theorem Relaid.pieces_eq {a b : Text} (h : Relaid a b) : pieces a = pieces b := by
  induction h with
  | refl => rfl
  | tail _ he ih => exact ih.trans he.pieces_eq

private theorem Relaid.senses_eq {a b : Text} (h : Relaid a b) : senses a = senses b := by
  rw [senses_eq_readPieces, senses_eq_readPieces, h.pieces_eq]

end Token

/-- Under all settings a source laid out anew comes to the same noun, to an error of the same kind
at the same stage, or to the same fault. -/
theorem Settings.outcome_of_relaid {a b : Text} (h : Token.Relaid a b) :
    ((Token.tokenize a).map (List.map Token.kind)).mapError ScanError.kind =
      ((Token.tokenize b).map (List.map Token.kind)).mapError ScanError.kind ∧
    ∀ s : Settings, s.outcome a = s.outcome b := by
  have hsenses := h.senses_eq
  have hkinds (source : Text) :
      ((Token.tokenize source).map (List.map Token.kind)).mapError ScanError.kind =
        (Token.senses source).map (List.map Prod.fst) := by
    unfold Token.senses
    cases Token.tokenize source with
    | error e => rfl
    | ok tokens => simp [Except.map, Except.mapError, Token.sense]
  constructor
  · rw [hkinds, hkinds, hsenses]
  · exact Settings.outcome_congr hsenses

/-- `#1  2` laid out anew, with a tab between the numbers and a line feed after the verb. -/
theorem Settings.outcome_of_relaid_tally :
    Token.Relaid (Text.ofString "#1  2") (Text.ofString "#\n1\t2") ∧
      ({} : Settings).outcome (Text.ofString "#\n1\t2") = .ok (.scalar 2) := by
  have hrespace : Token.Edit [35, 49, 32, 32, 50] [35, 49, 9, 50] :=
    @Token.Edit.respace [35, 49] [32, 32] [9] [50] ⟨49, rfl, rfl⟩ ⟨50, rfl, rfl⟩
      ⟨by simp, by simp [Token.isBlank]⟩ ⟨by simp, by simp [Token.isBlank]⟩
  have hplace : ¬ Token.BetweenDigits [35] [49, 9, 50] := by
    rintro ⟨⟨b, ⟨⟩, hb⟩, -⟩
    cases hb
  have hinsert : Token.Edit [35, 49, 9, 50] [35, 10, 49, 9, 50] :=
    @Token.Edit.insert [35] [10] [49, 9, 50] hplace (by simp [Token.isBlank])
  have h : Token.Relaid (Text.ofString "#1  2") (Text.ofString "#\n1\t2") :=
    .tail (.tail .refl hrespace) hinsert
  refine ⟨h, ?_⟩
  rw [← (outcome_of_relaid h).2]
  rfl

end Ravel
