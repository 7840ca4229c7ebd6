import Mathlib.Data.List.Basic
import Ravel.Proofs.Readback

/-!
# Outlines of trees

The outline of a tree leaves nothing to guess. A literal, an application and a parenthesized
expression each open with a bracket of their own and end where it is closed, so that an outline is
never the start of a different one (`Tree.Plain.outline_append`). The bracket of a literal is also
the mark of a verb, but a digit follows the bracket and a blank follows the verb
(`Tree.Plain.outline_ne_mark_blank`). Hence two sources have the same outline exactly if their trees
differ in places only (`Tree.outline_eq_iff_bare_eq`).
-/

namespace Ravel

/-- Rows that go on with the same member, which neither of them has, are the same. -/
private theorem eq_of_append_cons {α : Type} {x : α} {xs ys r s : List α} (hx : x ∉ xs)
    (hy : x ∉ ys) (h : xs ++ x :: r = ys ++ x :: s) : xs = ys ∧ r = s := by
  rcases List.append_eq_append_iff.mp h with ⟨w, rfl, hw⟩ | ⟨w, rfl, hw⟩
  · cases w with
    | nil => exact ⟨by simp, (List.cons.inj hw).2⟩
    | cons y w =>
      obtain ⟨rfl, -⟩ := List.cons.inj hw
      exact absurd (List.mem_append_right xs List.mem_cons_self) hy
  · cases w with
    | nil => exact ⟨by simp, (List.cons.inj hw).2.symm⟩
    | cons y w =>
      obtain ⟨rfl, -⟩ := List.cons.inj hw
      exact absurd (List.mem_append_right ys List.mem_cons_self) hx

namespace Noun

variable {a b : Noun}

private theorem Literal.isDigitOrBlank_of_mem_source (h : a.Literal) :
    ∀ d ∈ a.source, Token.isDigitOrBlank d := by
  rw [h.source_eq]
  exact Text.isDigitOrBlank_of_mem_ofInt64s fun x hx ↦ h.nonneg x (Array.mem_toList_iff.mp hx)

/-- The text of a literal starts with a digit. -/
private theorem Literal.exists_digit_source (h : a.Literal) :
    ∃ d rest, a.source = d :: rest ∧ Text.isDigit d := by
  obtain ⟨x, xs, hdata⟩ : ∃ x xs, a.data.toList = x :: xs :=
    List.exists_cons_of_ne_nil (by simpa using h.nonempty)
  have hmem : x ∈ a.data := by
    rw [← Array.mem_toList_iff, hdata]
    exact List.mem_cons_self
  obtain ⟨d, digits, hdigits⟩ := List.exists_cons_of_ne_nil (Text.ofNat_ne_nil x.toInt.toNat)
  have hfirst : Text.ofInt64 x = d :: digits := by
    rw [Text.ofInt64_of_nonneg (h.nonneg x hmem), hdigits]
  have hd : Text.isDigit d := Text.isDigit_of_mem_ofNat (hdigits ▸ List.mem_cons_self)
  rw [h.source_eq, hdata, Text.ofInt64s, Text.join, List.map_cons, hfirst]
  cases xs with
  | nil => exact ⟨d, digits, by simp, hd⟩
  | cons y ys => exact ⟨d, _, by rw [List.map_cons, List.intercalate_cons_cons]; rfl, hd⟩

private theorem Literal.eq_of_source_eq (ha : a.Literal) (hb : b.Literal)
    (h : a.source = b.source) :
    a = b := by
  have hspells := hb.spells_source
  rw [← h] at hspells
  exact Expr.noun.inj (ha.spells_source.single.unique hspells.single).2

end Noun

namespace Token

/-- The lexemes that are verbs. -/
private theorem mem_marks_of_lexeme {b : UInt8} {rest text : Text}
    (h : lexeme b rest = .token .verb text) :
    b ∈ Verb.marks ∧ text = [b] := by
  unfold lexeme at h
  split at h
  · cases h
  split at h
  · -- a number run is a number or a vector
    unfold numberLexeme at h
    dsimp only at h
    split at h
    · cases h
    · obtain ⟨hkind, -⟩ := Lexeme.token.inj h
      split at hkind <;> cases hkind
  split at h
  · next hverb =>
    cases h
    exact ⟨by simpa [isVerb] using hverb, rfl⟩
  split at h
  · cases h
  · split at h <;> cases h

private theorem mem_marks_of_mem_tokens {source : Text} {t : Token} (h : t ∈ (scan source).tokens)
    (hk : t.kind = .verb) {mark : UInt8} (hm : t.text.head? = some mark) : mark ∈ Verb.marks := by
  obtain ⟨before, b, rest, -, hl, -⟩ := mem_tokens_scan h
  rw [hk] at hl
  obtain ⟨hb, htext⟩ := mem_marks_of_lexeme hl
  rw [htext, List.head?_cons] at hm
  cases hm
  exact hb

end Token

namespace Tree

/-- The trees that sources have: literals denote their nouns, verbs are known by their marks, and no
operand is missing. -/
def Plain : Tree → Prop
  | .literal a _ => a.Literal
  | .monad mark right _ => mark ∈ Verb.marks ∧ right.Plain
  | .dyad left mark right _ => mark ∈ Verb.marks ∧ left.Plain ∧ right.Plain
  | .paren inner _ => inner.Plain
  | .hole => False

private theorem Derives.plain {source : Text} {p : Phrase} {n : Nat} {ts : List Token} {t : Tree}
    (h : Derives p n ts t) (ht : ∀ v ∈ ts, v ∈ (Token.scan source).tokens) : t.Plain := by
  induction h with
  | @literal v a hk ha =>
    have hl : v.isLiteral := by rcases hk with hk | hk <;> simp [Token.isLiteral, hk]
    exact Noun.literal_of_mem_tokens (ht v List.mem_cons_self) hl ha
  | @monad v mark n ts r hk hm hr ih =>
    exact ⟨Token.mem_marks_of_mem_tokens (ht v List.mem_cons_self) hk hm,
      ih fun u hu ↦ ht u (List.mem_cons_of_mem v hu)⟩
  | @paren opening closing n ts inner ho hc hd ih =>
    exact ih fun u hu ↦ ht u (List.mem_cons_of_mem opening (List.mem_append_left _ hu))
  | single hd ih => exact ih ht
  | @dyad v mark m n ts us l r hl hk hm hr ihl ihr =>
    refine ⟨Token.mem_marks_of_mem_tokens (ht v ?_) hk hm,
      ihl fun u hu ↦ ht u (List.mem_append_left _ hu), ihr fun u hu ↦ ht u ?_⟩
    · exact List.mem_append_right ts List.mem_cons_self
    · exact List.mem_append_right ts (List.mem_cons_of_mem v hu)

private theorem plain_of_parse {source : Text} {tokens : List Token} {limit : Int64} {t : Tree}
    (hs : Token.tokenize source = .ok tokens) (hp : parse limit tokens = .ok t) : t.Plain := by
  have hscan := Token.scan_of_tokenize hs
  have hmem : ∀ v ∈ tokens, v ∈ (Token.scan source).tokens := fun v hv ↦ by rwa [hscan]
  obtain ⟨n, hd, -⟩ := (parse_eq_ok_iff_derives fun v hv ↦
    Token.kind_ne_eof_of_mem_tokens (hmem v hv)).mp hp
  exact hd.plain hmem

/-! ### What an outline is followed by -/

variable {t u left right inner : Tree} {mark : UInt8} {offset : Int} {r s : Text}

private theorem outline_literal_append (a : Noun) :
    (literal a offset).outline ++ r = 60 :: (a.source ++ 62 :: r) := by
  simp [outline]

private theorem outline_monad_append (hm : mark ∈ Verb.marks) :
    (monad mark right offset).outline ++ r = 40 :: mark :: 32 :: (right.outline ++ 41 :: r) := by
  simp [outline, Verb.ofByte_of_mem_marks hm]

private theorem outline_dyad_append (hm : mark ∈ Verb.marks) :
    (dyad left mark right offset).outline ++ r =
      40 :: (left.outline ++ 32 :: mark :: 32 :: (right.outline ++ 41 :: r)) := by
  simp [outline, Verb.ofByte_of_mem_marks hm]

private theorem outline_paren_append :
    (paren inner offset).outline ++ r = 91 :: (inner.outline ++ 93 :: r) := by
  simp [outline]

/-- No outline starts as the rest of a monadic application does, with a mark and a blank. -/
theorem Plain.outline_ne_mark_blank (ht : t.Plain) (hm : mark ∈ Verb.marks) :
    t.outline ++ r ≠ mark :: 32 :: s := by
  intro h
  have hparen : (40 : UInt8) ∉ Verb.marks := by decide
  have hbracket : (91 : UInt8) ∉ Verb.marks := by decide
  cases t with
  | literal a offset =>
    obtain ⟨d, rest, hsource, hd⟩ := ht.exists_digit_source
    rw [outline_literal_append, hsource, List.cons_append] at h
    obtain ⟨-, htail⟩ := List.cons.inj h
    obtain ⟨rfl, -⟩ := List.cons.inj htail
    exact absurd hd (by decide)
  | monad m right offset =>
    rw [outline_monad_append ht.1] at h
    obtain ⟨rfl, -⟩ := List.cons.inj h
    exact hparen hm
  | dyad left m right offset =>
    rw [outline_dyad_append ht.1] at h
    obtain ⟨rfl, -⟩ := List.cons.inj h
    exact hparen hm
  | paren inner offset =>
    rw [outline_paren_append] at h
    obtain ⟨rfl, -⟩ := List.cons.inj h
    exact hbracket hm
  | hole => exact ht.elim

/-- No outline is the start of a different one: from a text that starts with an outline the tree can
be told, but for its places, and what follows it. -/
theorem Plain.outline_append (ht : t.Plain) (hu : u.Plain)
    (h : t.outline ++ r = u.outline ++ s) : t.bare = u.bare ∧ r = s := by
  induction t generalizing u r s with
  | hole => exact ht.elim
  | literal a offset =>
    rw [outline_literal_append] at h
    cases u with
    | literal b offset' =>
      rw [outline_literal_append] at h
      have hnot {c : Noun} (hc : c.Literal) : (62 : UInt8) ∉ c.source := by
        intro hmem
        exact absurd (hc.isDigitOrBlank_of_mem_source _ hmem) (by decide)
      obtain ⟨hsource, hrest⟩ := eq_of_append_cons (hnot ht) (hnot hu) (List.cons.inj h).2
      rw [bare, bare, ht.eq_of_source_eq hu hsource]
      exact ⟨rfl, hrest⟩
    | monad m right' offset' => rw [outline_monad_append hu.1] at h; cases h
    | dyad left' m right' offset' => rw [outline_dyad_append hu.1] at h; cases h
    | paren inner' offset' => rw [outline_paren_append] at h; cases h
    | hole => exact hu.elim
  | monad mark right offset ih =>
    rw [outline_monad_append ht.1] at h
    cases u with
    | monad m right' offset' =>
      rw [outline_monad_append hu.1] at h
      simp only [List.cons.injEq, true_and] at h
      obtain ⟨rfl, h⟩ := h
      obtain ⟨hright, hrest⟩ := ih ht.2 hu.2 h
      rw [bare, bare, hright]
      exact ⟨rfl, (List.cons.inj hrest).2⟩
    | dyad left' m right' offset' =>
      rw [outline_dyad_append hu.1] at h
      exact absurd (List.cons.inj h).2.symm (hu.2.1.outline_ne_mark_blank ht.1)
    | literal b offset' => rw [outline_literal_append] at h; cases h
    | paren inner' offset' => rw [outline_paren_append] at h; cases h
    | hole => exact hu.elim
  | dyad left mark right offset ihl ihr =>
    rw [outline_dyad_append ht.1] at h
    cases u with
    | dyad left' m right' offset' =>
      rw [outline_dyad_append hu.1] at h
      obtain ⟨hleft, hmiddle⟩ := ihl ht.2.1 hu.2.1 (List.cons.inj h).2
      simp only [List.cons.injEq, true_and] at hmiddle
      obtain ⟨rfl, hmiddle⟩ := hmiddle
      obtain ⟨hright, hrest⟩ := ihr ht.2.2 hu.2.2 hmiddle
      rw [bare, bare, hleft, hright]
      exact ⟨rfl, (List.cons.inj hrest).2⟩
    | monad m right' offset' =>
      rw [outline_monad_append hu.1] at h
      exact absurd (List.cons.inj h).2 (ht.2.1.outline_ne_mark_blank hu.1)
    | literal b offset' => rw [outline_literal_append] at h; cases h
    | paren inner' offset' => rw [outline_paren_append] at h; cases h
    | hole => exact hu.elim
  | paren inner offset ih =>
    rw [outline_paren_append] at h
    cases u with
    | paren inner' offset' =>
      rw [outline_paren_append] at h
      obtain ⟨hinner, hrest⟩ := ih (u := inner') ht hu (List.cons.inj h).2
      rw [bare, bare, hinner]
      exact ⟨rfl, (List.cons.inj hrest).2⟩
    | literal b offset' => rw [outline_literal_append] at h; cases h
    | monad m right' offset' => rw [outline_monad_append hu.1] at h; cases h
    | dyad left' m right' offset' => rw [outline_dyad_append hu.1] at h; cases h
    | hole => exact hu.elim

private theorem outline_bare (t : Tree) : t.bare.outline = t.outline := by
  induction t with
  | literal a offset => rfl
  | hole => rfl
  | monad mark right offset ih => rw [bare, outline, outline, ih]
  | dyad left mark right offset ihl ihr => rw [bare, outline, outline, ihl, ihr]
  | paren inner offset ih => rw [bare, outline, outline, ih]

/-- Two sources have the same outline exactly if their trees differ in places only. -/
theorem outline_eq_iff_bare_eq {source source' : Text} {tokens tokens' : List Token}
    {limit limit' : Int64} (hs : Token.tokenize source = .ok tokens)
    (hp : parse limit tokens = .ok t) (hs' : Token.tokenize source' = .ok tokens')
    (hp' : parse limit' tokens' = .ok u) : t.outline = u.outline ↔ t.bare = u.bare := by
  constructor
  · intro h
    exact ((plain_of_parse hs hp).outline_append (plain_of_parse hs' hp')
      (congrArg (· ++ []) h)).1
  · intro h
    rw [← outline_bare t, ← outline_bare u, h]

/-- `1 2<(<3)` and a looser layout of it have trees of different places and one outline, in which
`<` is the bracket of literals, a dyadic verb and a monadic one. -/
theorem outline_eq_iff_bare_eq_layout :
    let t := dyad (literal (.vector #[1, 2]) 0) 60 (paren (monad 60 (literal (.scalar 3) 6) 5) 4) 3
    let u := dyad (literal (.vector #[1, 2]) 1) 60 (paren (monad 60 (literal (.scalar 3) 10) 9) 7) 5
    t.outline = Text.ofString "(<1 2> < [(< <3>)])" ∧ t.outline = u.outline := by
  refine ⟨by decide +kernel, ?_⟩
  exact (@outline_eq_iff_bare_eq _ _ (Text.ofString "1 2<(<3)") (Text.ofString " 1\t2 < ( <3)")
    _ _ 1000 5 rfl rfl rfl rfl).mpr rfl

end Tree

end Ravel
