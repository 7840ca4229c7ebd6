import Mathlib.Data.List.DropRight
import Ravel.Proofs.Concatenation
import Ravel.Proofs.Run

/-!
# Spellings of expressions

A text spells an expression if it is read as that expression wherever in a source it stands
(`Text.Spells`). Spellings are put together as the grammar says: parentheses around a spelling, a
verb before one and a verb between two are spellings again, each one level deeper than what they are
made of. The settings decide only how deep a spelling may be (`Settings.reads_iff_spells`).
-/

namespace Ravel

namespace Tree

/-! ### Trees without places -/

/-- A tree without the places of its parts. -/
def bare : Tree → Tree
  | .literal value _ => .literal value 0
  | .monad mark right _ => .monad mark right.bare 0
  | .dyad left mark right _ => .dyad left.bare mark right.bare 0
  | .paren inner _ => .paren inner.bare 0
  | .hole => .hole

private theorem nesting_bare (t : Tree) : t.bare.nesting = t.nesting := by
  induction t with
  | literal value offset => rfl
  | hole => rfl
  | paren inner offset ih => rw [bare, nesting, nesting, ih]
  | monad mark right offset ih => rw [bare, nesting, nesting, ih]
  | dyad left mark right offset ihl ihr => rw [bare, nesting, nesting, ihl, ihr]

/-- The expression of a tree does not depend on places. -/
private theorem erased_bare_eq_ok_iff {t : Tree} {e : Expr} :
    t.bare.erased = .ok e ↔ t.erased = .ok e := by
  induction t generalizing e with
  | literal value offset => exact Iff.rfl
  | hole => exact Iff.rfl
  | paren inner offset ih => exact ih
  | monad mark right offset ih =>
    rw [bare, erased_monad_eq_ok_iff, erased_monad_eq_ok_iff]
    simp only [ih]
  | dyad left mark right offset ihl ihr =>
    rw [bare, erased_dyad_eq_ok_iff, erased_dyad_eq_ok_iff]
    simp only [ihl, ihr]

/-- Tokens of the same words have derivations of the same trees, but for their places. -/
private theorem Derives.of_word {p : Phrase} {n : Nat} {ts us : List Token} {t : Tree}
    (h : Derives p n ts t) (hw : us.map Token.word = ts.map Token.word) :
    ∃ u, Derives p n us u ∧ u.bare = t.bare := by
  have hkind {v v' : Token} (hv : v'.word = v.word) : v'.kind = v.kind := congrArg Prod.fst hv
  have htext {v v' : Token} (hv : v'.word = v.word) : v'.text = v.text := congrArg Prod.snd hv
  induction h generalizing us with
  | @literal v a hk ha =>
    obtain ⟨v', rfl, hv⟩ := List.map_eq_singleton_iff.mp hw
    exact ⟨_, .literal (hkind hv ▸ hk) (htext hv ▸ ha), rfl⟩
  | @monad v mark n ts r hk hm hr ih =>
    obtain ⟨v', us, rfl, hv, hus⟩ := List.map_eq_cons_iff.mp hw
    obtain ⟨u, hu, hb⟩ := ih hus
    exact ⟨_, .monad (hkind hv ▸ hk) (htext hv ▸ hm) hu, by rw [bare, bare, hb]⟩
  | @paren opening closing n ts inner ho hc hd ih =>
    obtain ⟨opening', rest, rfl, ho', hrest⟩ := List.map_eq_cons_iff.mp hw
    rw [List.map_append] at hrest
    obtain ⟨us, last, rfl, hus, hlast⟩ := List.map_eq_append_iff.mp hrest
    obtain ⟨closing', rfl, hc'⟩ := List.map_eq_singleton_iff.mp hlast
    obtain ⟨u, hu, hb⟩ := ih hus
    exact ⟨_, .paren (hkind ho' ▸ ho) (hkind hc' ▸ hc) hu, by rw [bare, bare, hb]⟩
  | single hd ih =>
    obtain ⟨u, hu, hb⟩ := ih hw
    exact ⟨u, .single hu, hb⟩
  | @dyad v mark m n ts us' l r hl hk hm hr ihl ihr =>
    rw [List.map_append] at hw
    obtain ⟨ts', rest, rfl, hts, hrest⟩ := List.map_eq_append_iff.mp hw
    obtain ⟨v', us, rfl, hv, hus⟩ := List.map_eq_cons_iff.mp hrest
    obtain ⟨l', hl', hbl⟩ := ihl hts
    obtain ⟨r', hr', hbr⟩ := ihr hus
    exact ⟨_, .dyad hl' (hkind hv ▸ hk) (htext hv ▸ hm) hr', by rw [bare, bare, hbl, hbr]⟩

/-- The levels that a phrase takes beyond those of its tree. -/
def Phrase.extra : Phrase → Nat
  | .expression => 1
  | .term => 0

/-- A recursive descent through a derivation nests at most one level more than its tree. -/
theorem Derives.levels_le {p : Phrase} {n : Nat} {ts : List Token} {t : Tree}
    (h : Derives p n ts t) : n ≤ t.nesting + p.extra := by
  induction h with
  | literal hk ha => exact Nat.zero_le _
  | monad hk hm hr ih =>
    rw [nesting]
    simp only [Phrase.extra] at *
    omega
  | paren ho hc he ih =>
    rw [nesting]
    simp only [Phrase.extra] at *
    omega
  | single ht ih =>
    simp only [Phrase.extra] at *
    omega
  | dyad hl hk hm hr ihl ihr =>
    rw [nesting]
    simp only [Phrase.extra] at *
    omega

end Tree

namespace Verb

/-- What has a monadic form is the mark of a verb. -/
theorem mem_marks_of_monadic? {mark : UInt8} (h : (monadic? mark).isSome) : mark ∈ marks := by
  have hall : ∀ n : Fin 256, (monadic? (UInt8.ofFin n)).isSome → UInt8.ofFin n ∈ marks := by
    decide +kernel
  exact hall mark.toFin h

/-- What has a dyadic form is the mark of a verb. -/
theorem mem_marks_of_dyadic? {mark : UInt8} (h : (dyadic? mark).isSome) : mark ∈ marks := by
  have hall : ∀ n : Fin 256, (dyadic? (UInt8.ofFin n)).isSome → UInt8.ofFin n ∈ marks := by
    decide +kernel
  exact hall mark.toFin h

end Verb

namespace Token

/-- A blank is no digit. -/
theorem isDigit_of_isBlank {b : UInt8} (h : isBlank b) : Text.isDigit b = false := by
  have hall : ∀ n : Fin 256, isBlank (UInt8.ofFin n) → Text.isDigit (UInt8.ofFin n) = false := by
    decide +kernel
  exact hall b.toFin h

private theorem exists_numberRun_append {s : Text} (hs : ∀ b ∈ s, isDigitOrBlank b) :
    ∃ blanks, numberRun s ++ blanks = s ∧ ∀ b ∈ blanks, isBlank b := by
  have hrun : numberRun s = s.rdropWhile isBlank := by
    have hall : s.takeWhile isDigitOrBlank = s := List.takeWhile_eq_self_iff.mpr hs
    exact congrArg (Text.dropWhileEnd isBlank) hall
  refine ⟨s.rtakeWhile isBlank, ?_, fun b hb ↦ List.mem_rtakeWhile_imp hb⟩
  rw [hrun, List.rdropWhile_append_rtakeWhile]

/-- A number run whose numerals are 64-bit integers is a literal. -/
private theorem numberLexeme_eq_token {run : Text} (ho : ∀ g ∈ run.numerals, isOversize g = false) :
    ∃ kind, numberLexeme run = .token kind run ∧ (kind = .number ∨ kind = .vector) := by
  have hfind : (digitGroups run).find? (fun g ↦ isOversize g.2) = none := by
    rw [List.find?_eq_none]
    intro g hg
    rw [ho g.2 (by rw [Text.numerals_eq_digitGroups]; exact List.mem_map_of_mem hg)]
    exact Bool.false_ne_true
  simp only [numberLexeme, hfind]
  refine ⟨_, rfl, ?_⟩
  split
  · exact .inr rfl
  · exact .inl rfl

/-- A text of digits and blanks with numerals that are 64-bit integers is one literal. -/
private theorem scanFrom_numerals {s : Text} (hs : ∀ b ∈ s, isDigitOrBlank b)
    (hne : s.numerals ≠ []) (ho : ∀ g ∈ s.numerals, isOversize g = false) (offset : Nat) :
    ∃ t : Token, scanFrom offset s = ⟨[t], none⟩ ∧ (t.kind = .number ∨ t.kind = .vector) ∧
      (∀ b ∈ t.text, isDigitOrBlank b) ∧ t.text.numerals = s.numerals := by
  induction s generalizing offset with
  | nil => exact absurd rfl hne
  | cons b s ih =>
    by_cases hb : isBlank b = true
    · rw [Text.numerals_cons (isDigit_of_isBlank hb)] at hne ho ⊢
      rw [scanFrom_blank hb]
      exact ih (fun c hc ↦ hs c (List.mem_cons_of_mem b hc)) hne ho (offset + 1)
    · have hd : Text.isDigit b = true := by
        have := hs b List.mem_cons_self
        simpa [isDigitOrBlank, hb] using this
      obtain ⟨blanks, hsplit, hblanks⟩ := exists_numberRun_append hs
      have hnumerals : (numberRun (b :: s)).numerals = Text.numerals (b :: s) := by
        rw [← Text.numerals_append_right _ fun c hc ↦ isDigit_of_isBlank (hblanks c hc), hsplit]
      obtain ⟨kind, hlex, hkind⟩ := numberLexeme_eq_token (hnumerals ▸ ho)
      have htoken : lexeme b s = .token kind (numberRun (b :: s)) := by
        rw [lexeme, if_neg hb, if_pos hd, hlex]
      -- after the run only blanks are left
      have hrest : s.drop ((numberRun (b :: s)).length - 1) = blanks := by
        cases hrun : numberRun (b :: s) with
        | nil =>
          rw [hrun] at hnumerals
          exact absurd hnumerals.symm hne
        | cons c run =>
          rw [hrun, List.cons_append] at hsplit
          cases hsplit
          exact List.drop_left
      refine ⟨⟨kind, offset, numberRun (b :: s)⟩, ?_, hkind,
        fun c hc ↦ isDigitOrBlank_of_mem_numberRun hc, hnumerals⟩
      rw [scanFrom_token htoken (length_le_of_lexeme htoken), hrest, scanFrom_blanks hblanks]
      rfl

end Token

namespace Text

/-- A text is read as an expression, wherever in a source it stands: its tokens have a derivation,
and the tree of the derivation has that expression and so many levels. -/
def Spells (p : Tree.Phrase) (levels : Nat) (s : Text) (e : Expr) : Prop :=
  ∀ offset, ∃ (ts : List Token) (n : Nat) (tree : Tree), Token.scanFrom offset s = ⟨ts, none⟩ ∧
    Tree.Derives p n ts tree ∧ tree.nesting = levels ∧ tree.erased = .ok e

variable {p : Tree.Phrase} {j k : Nat} {s t : Text} {b : UInt8} {e l r : Expr}

/-- A text spells at most one expression. -/
theorem Spells.unique (h : Spells .expression j s l) (h' : Spells .expression k s r) :
    j = k ∧ l = r := by
  obtain ⟨ts, n, tree, hs, hd, rfl, he⟩ := h 0
  obtain ⟨us, m, tree', hs', hd', rfl, he'⟩ := h' 0
  rw [hs] at hs'
  cases hs'
  obtain ⟨-, rfl⟩ := hd.unique hd'
  exact ⟨rfl, Except.ok.inj (he.symm.trans he')⟩

/-- A term is an expression. -/
theorem Spells.single (h : Spells p k s e) : Spells .expression k s e := by
  cases p with
  | expression => exact h
  | term =>
    intro offset
    obtain ⟨ts, n, tree, hs, hd, hx⟩ := h offset
    exact ⟨ts, n + 1, tree, hs, .single hd, hx⟩

/-- A blank before a spelling. -/
theorem Spells.cons_blank (h : Spells p k s e) (hb : Token.isBlank b) : Spells p k (b :: s) e := by
  intro offset
  rw [Token.scanFrom_blank hb]
  exact h (offset + 1)

/-- A blank after a spelling. -/
theorem Spells.append_blank (h : Spells p k s e) (hb : Token.isBlank b) :
    Spells p k (s ++ [b]) e := by
  intro offset
  obtain ⟨ts, n, tree, hs, hx⟩ := h offset
  refine ⟨ts, n, tree, ?_, hx⟩
  rw [Token.scanFrom_append (Token.closed_nil.cons_blank hb) (by rw [hs]), hs,
    Token.scanFrom_blank hb, Token.scanFrom_nil]
  simp [Token.Scan.after]

/-- Parentheses around a spelling. -/
theorem Spells.paren (h : Spells .expression k s e) :
    Spells .term (k + 1) (Expr.parenthesized s) e := by
  intro offset
  obtain ⟨ts, n, tree, hs, hd, hn, he⟩ := h (offset + 1)
  have hclosed : Token.Closed [41] := Token.closed_cons (by decide) (by decide) []
  refine ⟨⟨.leftParen, offset, [40]⟩ ::
      (ts ++ [⟨.rightParen, (offset + 1 + s.length : Nat), [41]⟩]), n, .paren tree offset, ?_,
    .paren rfl rfl hd, by rw [Tree.nesting, hn], he⟩
  rw [Expr.parenthesized, List.cons_append, Token.scanFrom_mark (Token.lexeme_leftParen _),
    Token.scanFrom_append hclosed (by rw [hs]), hs, Token.scanFrom_mark (Token.lexeme_rightParen _)]
  rfl

/-- A verb with a monadic form before a spelling of a term. -/
theorem Spells.monad (h : Spells .term k s r) (hb : (Verb.monadic? b).isSome) :
    Spells .term (k + 1) (b :: s) (.monad b r) := by
  intro offset
  obtain ⟨ts, n, tree, hs, hd, hn, he⟩ := h (offset + 1)
  refine ⟨⟨.verb, offset, [b]⟩ :: ts, n + 1, .monad b tree offset, ?_, .monad rfl rfl hd,
    by rw [Tree.nesting, hn], Tree.erased_monad_eq_ok_iff.mpr ⟨r, he, hb, rfl⟩⟩
  rw [Token.scanFrom_mark (Token.lexeme_verb (Verb.mem_marks_of_monadic? hb) s), hs]
  rfl

/-- A verb with a dyadic form between spellings of a term and an expression. -/
theorem Spells.dyad (hl : Spells .term j s l) (hb : (Verb.dyadic? b).isSome)
    (hr : Spells .expression k t r) :
    Spells .expression (max j k + 1) (s ++ b :: t) (.dyad l b r) := by
  intro offset
  obtain ⟨ts, m, left, hs, hdl, hnl, hel⟩ := hl offset
  obtain ⟨us, n, right, ht, hdr, hnr, her⟩ := hr (offset + s.length + 1)
  have hmark := Verb.mem_marks_of_dyadic? hb
  have hclosed : Token.Closed (b :: t) := by
    obtain ⟨hblank, hdigit⟩ := Token.not_blank_of_mem_marks hmark
    exact Token.closed_cons hblank hdigit t
  refine ⟨ts ++ ⟨.verb, (offset + s.length : Nat), [b]⟩ :: us, max m n + 1,
    .dyad left b right (offset + s.length : Nat), ?_, .dyad hdl rfl rfl hdr,
    by rw [Tree.nesting, hnl, hnr], Tree.erased_dyad_eq_ok_iff.mpr ⟨l, r, hel, her, hb, rfl⟩⟩
  rw [Token.scanFrom_append hclosed (by rw [hs]), hs,
    Token.scanFrom_mark (Token.lexeme_verb hmark t), ht]
  rfl

/-- A text of digits and blanks spells the numbers that its numerals are. -/
theorem spells_of_numerals (hs : ∀ b ∈ s, Token.isDigitOrBlank b) {xs : Array Int64}
    (hne : xs ≠ #[]) (hx : ∀ x ∈ xs, 0 ≤ x.toInt)
    (hn : s.numerals = xs.toList.map ofInt64) :
    Spells .term 0 s (.noun (.ofElements xs)) := by
  intro offset
  obtain ⟨t, ht, hk, htext, hnum⟩ := Token.scanFrom_numerals hs (by rw [hn]; simpa using hne)
    (fun g hg ↦ by
      rw [hn] at hg
      obtain ⟨x, hm, rfl⟩ := List.mem_map.mp hg
      exact isOversize_ofInt64 (hx x (Array.mem_toList_iff.mp hm))) offset
  exact ⟨[t], 0, _, ht, .literal hk (Noun.ofLiteral_of_numerals htext hne hx (hnum.trans hn)),
    rfl, rfl⟩

/-- A spelling has tokens and a tree, whatever the limit of depth is, if the guard of the parser is
above its levels. -/
theorem Spells.stages (h : Spells .expression k s e) :
    ∃ tokens tree, Token.tokenize s = .ok tokens ∧
      (∀ limit : Int64, (k : Int) < (2 * limit + 2).toInt → Tree.parse limit tokens = .ok tree) ∧
      tree.nesting = k ∧ tree.erased = .ok e := by
  obtain ⟨tokens, n, tree, hs, hd, hn, he⟩ := h 0
  have hscan : Token.scan s = ⟨tokens, none⟩ := hs
  refine ⟨tokens, tree, by rw [Token.tokenize, hscan], fun limit hk ↦ ?_, hn, he⟩
  have hend : ∀ t ∈ tokens, t.kind ≠ .eof := by
    intro t ht
    have hm : t ∈ (Token.scan s).tokens := by rwa [hscan]
    exact Token.kind_ne_eof_of_mem_tokens hm
  have hlevels := hd.levels_le
  simp only [Tree.Phrase.extra] at hlevels
  exact (Tree.parse_eq_ok_iff_derives hend).mpr ⟨n, hd, by omega⟩

end Text

namespace Settings

variable {s : Settings} {source : Text} {e : Expr}

/-- A source that is read spells its expression in levels that the settings allow. -/
theorem Reads.spells (h : s.Reads source e) :
    ∃ k : Nat, (k : Int) ≤ s.maxDepth.toInt ∧ source.Spells .expression k e := by
  obtain ⟨hs, n, tree, hd, -, hn, he⟩ := reads_iff.mp h
  refine ⟨tree.nesting, hn, fun offset ↦ ?_⟩
  have hscan : Token.scanFrom 0 source = ⟨(Token.scan source).tokens, none⟩ := by
    rw [← hs]
    rfl
  obtain ⟨us, hus, hw⟩ := Token.word_scanFrom hscan offset
  obtain ⟨u, hu, hb⟩ := hd.of_word hw
  refine ⟨us, n, u, hus, hu, ?_, ?_⟩
  · rw [← Tree.nesting_bare, hb, Tree.nesting_bare]
  · rw [← Tree.erased_bare_eq_ok_iff, hb, Tree.erased_bare_eq_ok_iff]
    exact he

/-- While the guard of the parser is a 64-bit integer, a source is read exactly if it spells the
expression in levels that the settings allow. -/
theorem reads_iff_spells (hg : 2 * s.maxDepth.toInt + 2 < 0x8000000000000000) :
    s.Reads source e ↔
      ∃ k : Nat, (k : Int) ≤ s.maxDepth.toInt ∧ source.Spells .expression k e := by
  refine ⟨Reads.spells, ?_⟩
  rintro ⟨k, hk, h⟩
  have hpos := s.maxDepth_pos
  obtain ⟨tokens, tree, ht, hp, hn, he⟩ := h.stages
  refine reads_iff_stages.mpr ⟨tokens, tree, ht, hp _ ?_, resolve_start_eq_ok_iff.mpr ⟨?_, he⟩⟩
  · rw [Tree.toInt_guard_of_lt (by omega) hg]
    omega
  · rw [hn]
    exact hk

end Settings

end Ravel
