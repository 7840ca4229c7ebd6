import Ravel.Proofs.Display
import Ravel.Proofs.Spelling

/-!
# What is written reads back

However the cells of a noun are laid out, the numerals of the text are the cells in their order
(`Noun.numerals_layout`), so that the display of a noun without negative elements is a literal for
its elements (`Settings.run_display`). The text of an expression spells the expression: the
parentheses that it is written with are the ones that the grammar asks for (`Expr.spells_source`),
and they cost at most one level for each verb (`Settings.resolve_source`).
-/

namespace Ravel

namespace Text

private theorem numerals_join_map {α : Type} {separator : Text} (hs : separator.Separates)
    {xs : List α} {f : α → Text} {g : α → List Text} (h : ∀ x ∈ xs, numerals (f x) = g x) :
    numerals (join separator (xs.map f)) = xs.flatMap g := by
  rw [numerals_join hs, List.flatMap_map]
  exact List.flatMap_congr h

private theorem isDigitOrBlank_of_mem_ofInt64 {x : Int64} (hx : 0 ≤ x.toInt) {b : UInt8}
    (hb : b ∈ ofInt64 x) : Token.isDigitOrBlank b := by
  rw [ofInt64_of_nonneg hx] at hb
  rw [Token.isDigitOrBlank, isDigit_of_mem_ofNat hb, Bool.true_or]

private theorem numerals_ofInt64s {xs : List Int64} (hx : ∀ x ∈ xs, 0 ≤ x.toInt) :
    numerals (ofInt64s xs) = xs.map ofInt64 := by
  rw [ofInt64s, numerals_join_map (separates_singleton rfl) fun x hm ↦ numerals_ofInt64 (hx x hm)]
  exact List.flatMap_pure_eq_map ofInt64 xs

/-- Numbers on a line, none of them negative, are made of digits and blanks. -/
theorem isDigitOrBlank_of_mem_ofInt64s {xs : List Int64} (hx : ∀ x ∈ xs, 0 ≤ x.toInt) :
    ∀ b ∈ ofInt64s xs, Token.isDigitOrBlank b := by
  refine forall_mem_join (List.forall_mem_singleton.mpr rfl) fun s hs b hb ↦ ?_
  obtain ⟨x, hm, rfl⟩ := List.mem_map.mp hs
  exact isDigitOrBlank_of_mem_ofInt64 (hx x hm) hb

/-- Numbers on a line, none of them negative, spell the noun of a literal with these elements. -/
theorem spells_ofInt64s {xs : Array Int64} (hne : xs ≠ #[]) (hx : ∀ x ∈ xs, 0 ≤ x.toInt) :
    (ofInt64s xs.toList).Spells .term 0 (.noun (.ofElements xs)) := by
  have hlist : ∀ x ∈ xs.toList, 0 ≤ x.toInt := fun x hm ↦ hx x (Array.mem_toList_iff.mp hm)
  exact spells_of_numerals (isDigitOrBlank_of_mem_ofInt64s hlist) hne hx (numerals_ofInt64s hlist)

end Text

namespace Noun

variable {width : Nat} {cells row : List Text}

/-- The numerals of a row are its cells. -/
private theorem numerals_rowText (hc : ∀ s ∈ row, s.numerals = [s]) :
    (rowText width row).numerals = row := by
  have hpadded (s : Text) (hs : s ∈ row) : (padded width s).numerals = [s] := by
    rw [padded, Text.numerals_append_left, hc s hs]
    intro b hb
    rw [List.eq_of_mem_replicate hb]
    rfl
  rw [rowText, Text.numerals_join_map (Text.separates_singleton rfl) hpadded]
  simp

/-- Cells that are as many as the shape says are all in the text that they are laid out as, in their
order, and no two of them are run together. -/
theorem numerals_layout {shape : List Int64} (hr : 2 ≤ shape.length)
    (hp : ∀ d ∈ shape, 0 < d.toInt) (hl : extent shape = cells.length)
    (hc : ∀ s ∈ cells, s.numerals = [s]) : (layout width shape cells).numerals = cells := by
  have hnewline : Text.newline.Separates := Text.separates_singleton rfl
  fun_induction layout width shape cells with
  | case1 cells => exact absurd hr (by decide)
  | case2 n cells => exact absurd hr (by simp)
  | case3 rows cols cells =>
    obtain ⟨-, hlen⟩ := length_eq_blocks hp hl
    rw [extent_cons, extent_nil, Int.mul_one] at hlen
    rw [Text.numerals_join_map (g := id) hnewline, List.flatMap_id, flatten_blocksOf hlen]
    intro row hrow
    exact numerals_rowText fun s hs ↦ hc s (mem_of_mem_blocksOf hrow hs)
  | case4 n axis next rest cells ih =>
    rw [Text.numerals_join_map (g := id) (hnewline.times _), List.flatMap_id, flatten_blocks hp hl]
    intro block hb
    exact ih block (by simp) (List.forall_mem_cons.mp hp).2
      (extent_eq_length_of_mem_blocks hp hl hb) fun s hm ↦ hc s (mem_of_mem_blocksOf hb hm)

/-- The numerals of the display of a sound noun are its elements in their order. -/
private theorem Sound.numerals_of_display {bound : Nat} {a : Noun} {text : Text} (h : a.Sound bound)
    (hn : 0 < a.size) (hx : ∀ x ∈ a.data, 0 ≤ x.toInt) (hd : a.display = .ok text) :
    text.numerals = a.data.toList.map Text.ofInt64 := by
  have hlist : ∀ x ∈ a.data.toList, 0 ≤ x.toInt := fun x hm ↦ hx x (Array.mem_toList_iff.mp hm)
  rcases display_cases hd with ⟨he, -⟩ | ⟨hs, x, he, rfl⟩ | ⟨-, rfl⟩ | ⟨hr, width, rfl⟩
  · rw [Array.isEmpty_iff_size_eq_zero] at he
    exact absurd hn (by rw [size, he]; exact Nat.lt_irrefl 0)
  · have hm := mem_of_element he
    obtain ⟨y, hy⟩ := Array.size_eq_one_iff.mp (h.exact.size_eq_one hs)
    rw [hy, Array.mem_singleton] at hm
    rw [Text.numerals_ofInt64 (hx x (mem_of_element he)), hy, hm]
    rfl
  · exact Text.numerals_ofInt64s hlist
  · refine numerals_layout hr (h.axes_pos hn) ?_ fun s hs ↦ ?_
    · rw [List.length_map, Array.length_toList]
      exact h.exact
    · obtain ⟨x, hm, rfl⟩ := List.mem_map.mp hs
      exact Text.numerals_ofInt64 (hlist x hm)

/-! ### Nouns in expressions -/

/-- A noun that lists its elements has one axis at most. -/
theorem rank_ofElements_le_one (xs : Array Int64) : (ofElements xs).rank ≤ 1 := by
  rw [rank, ofElements]
  dsimp only
  split
  · exact Nat.zero_le 1
  · exact Nat.le_refl 1

private theorem Literal.rank_le_one {a : Noun} (h : a.Literal) : a.rank ≤ 1 := by
  rw [h.eq_ofElements]
  exact rank_ofElements_le_one a.data

private theorem Literal.not_isEmpty {a : Noun} (h : a.Literal) : a.data.isEmpty = false := by
  simpa using h.nonempty

/-- The noun of a literal is written as its elements. -/
theorem Literal.source_eq {a : Noun} (h : a.Literal) :
    a.source = Text.ofInt64s a.data.toList := by
  simp [source, h.rank_le_one, h.not_isEmpty]

/-- The noun of a literal is written as a literal. -/
theorem Literal.spells_source {a : Noun} (h : a.Literal) : a.source.Spells .term 0 (.noun a) := by
  have hspells := Text.spells_ofInt64s h.nonempty h.nonneg
  rwa [h.source_eq, h.eq_ofElements]

end Noun

/-- The marks of verbs are characters of one byte. -/
theorem Verb.ofByte_of_mem_marks {mark : UInt8} (h : mark ∈ marks) : Text.ofByte mark = [mark] := by
  have hall : marks.all (fun m ↦ Text.ofByte m = [m]) = true := by decide
  simpa using List.all_eq_true.mp hall mark h

namespace Expr

/-- The phrase that the text of an expression is. -/
def phrase : Expr → Tree.Phrase
  | .dyad _ _ _ => .expression
  | _ => .term

/-- The text of an expression that is not compound is a term. -/
theorem phrase_of_not_isCompound {e : Expr} (h : ¬ e.isCompound) : e.phrase = .term := by
  cases e with
  | noun a => rfl
  | monad mark right => rfl
  | dyad left mark right => exact absurd rfl h

/-- The operand of a monadic verb is a term, by parentheses if need be. -/
theorem source_monad {mark : UInt8} (hm : mark ∈ Verb.marks) (right : Expr) :
    (monad mark right).source = mark :: 32 ::
      (match right.phrase with
        | .expression => parenthesized right.source
        | .term => right.source) := by
  have hbyte := Verb.ofByte_of_mem_marks hm
  cases right with
  | noun a => simp [source, hbyte, phrase]
  | monad m r => simp [source, hbyte, phrase]
  | dyad l m r => simp [source, hbyte, phrase]

/-- A compound operand on the left of a verb is in parentheses. -/
theorem source_dyad {mark : UInt8} (hm : mark ∈ Verb.marks) (left right : Expr) :
    (dyad left mark right).source =
      (if left.isCompound then parenthesized left.source else left.source) ++ [32] ++
        mark :: 32 :: right.source := by
  rw [source, Verb.ofByte_of_mem_marks hm]
  simp

/-- Every expression of literals is spelled by its text, with at most one pair of parentheses for
each level of verbs. -/
theorem spells_source {e : Expr} (hf : e.Formed) (hl : ∀ a ∈ e.nouns, a.Literal) :
    ∃ k ≤ 2 * e.nesting, e.source.Spells e.phrase k e := by
  have hblank : Token.isBlank 32 := rfl
  induction e with
  | noun a => exact ⟨0, Nat.zero_le _, (hl a (List.mem_singleton_self a)).spells_source⟩
  | monad mark right ih =>
    obtain ⟨hm, hr⟩ := hf
    obtain ⟨k, hk, hright⟩ := ih hr hl
    rw [source_monad (Verb.mem_marks_of_monadic? hm), nesting]
    cases hp : right.phrase with
    | expression =>
      exact ⟨k + 1 + 1, by omega, (hright.single.paren.cons_blank hblank).monad hm⟩
    | term =>
      rw [hp] at hright
      exact ⟨k + 1, by omega, (hright.cons_blank hblank).monad hm⟩
  | dyad left mark right ihl ihr =>
    obtain ⟨hm, hfl, hfr⟩ := hf
    obtain ⟨j, hj, hleft⟩ := ihl hfl fun a ha ↦ hl a (List.mem_append_left _ ha)
    obtain ⟨k, hk, hright⟩ := ihr hfr fun a ha ↦ hl a (List.mem_append_right _ ha)
    have hspells := hright.single.cons_blank hblank
    rw [source_dyad (Verb.mem_marks_of_dyadic? hm), nesting]
    -- the parentheses and the verb are two levels, so the bound grows by two for each verb
    split
    · exact ⟨max (j + 1) k + 1, by omega, (hleft.single.paren.append_blank hblank).dyad hm hspells⟩
    · next hc =>
      rw [phrase_of_not_isCompound hc] at hleft
      exact ⟨max j k + 1, by omega, (hleft.append_blank hblank).dyad hm hspells⟩

end Expr

namespace Settings

variable {s s' : Settings} {source : Text} {e : Expr}

private theorem Reads.literal (h : s.Reads source e) : ∀ a ∈ e.nouns, a.Literal := by
  intro a ha
  obtain ⟨-, n, tree, hd, -, -, he⟩ := reads_iff.mp h
  obtain ⟨t, ht, hl, hx⟩ := hd.exists_literal he ha
  exact Noun.literal_of_mem_tokens ht hl hx

/-- A noun with elements, none of them negative, is displayed as a text whose run gives the elements
in their order, as a scalar if there is one of them and else as a vector. -/
theorem run_display {a : Noun} (hg : 2 * s.maxDepth.toInt + 2 < 0x8000000000000000)
    (he : extent a.shape = a.size) (hs : ∀ d ∈ a.shape, 0 ≤ d.toInt) (hn : 0 < a.size)
    (hx : ∀ x ∈ a.data, 0 ≤ x.toInt) :
    ∃ text, a.display = .ok text ∧ (s.run text).result =
      .ok ⟨if a.size = 1 then [] else [Int64.ofNat a.size], a.data⟩ := by
  have hsound : a.Sound a.size :=
    ⟨he, fun d hd ↦ hs d (List.mem_of_mem_tail hd), Nat.le_refl a.size⟩
  have hne : a.data ≠ #[] := by
    intro h0
    rw [Noun.size, h0] at hn
    exact absurd hn (by decide)
  obtain ⟨text, hd, -⟩ := hsound.display
  have hbytes : ∀ b ∈ text, Token.isDigitOrBlank b := by
    refine Noun.forall_mem_display (by decide) (by decide) (fun x hm b hb ↦ ?_) hd
    exact Text.isDigitOrBlank_of_mem_ofInt64 (hx x hm) hb
  have hspells : text.Spells .expression 0 (.noun (.ofElements a.data)) :=
    (Text.spells_of_numerals hbytes hne hx (hsound.numerals_of_display hn hx hd)).single
  have hdepth := s.maxDepth_pos
  have hreads : s.Reads text (.noun (.ofElements a.data)) :=
    (reads_iff_spells hg).mpr ⟨0, Int.le_of_lt hdepth, hspells⟩
  exact ⟨text, hd, run_of_reads hreads⟩

/-- A matrix, displayed as ` 1 20` above ` 3  4`. -/
theorem run_display_matrix :
    ∃ text, Noun.display ⟨[2, 2], #[1, 20, 3, 4]⟩ = .ok text ∧
      (({} : Settings).run text).result = .ok (.vector #[1, 20, 3, 4]) :=
  run_display (by decide) (by decide) (by simp) (by decide) (by simp)

/-- The text of a resolved expression has tokens and a tree, under the limit of depth of the source
already, and under twice that limit the tree is resolved to the expression again. -/
theorem resolve_source {tokens : List Token} {tree : Tree}
    (hg : 4 * s.maxDepth.toInt + 2 < 0x8000000000000000) (hd : s'.maxDepth = 2 * s.maxDepth)
    (ht : Token.tokenize source = .ok tokens) (hp : Tree.parse s.maxDepth tokens = .ok tree)
    (hr : (tree.resolve (Context.start s.limits)).1 = .ok e) :
    ∃ tokens tree, Token.tokenize e.source = .ok tokens ∧
      Tree.parse s.maxDepth tokens = .ok tree ∧ Tree.parse s'.maxDepth tokens = .ok tree ∧
      (tree.resolve (Context.start s'.limits)).1 = .ok e := by
  have hreads : s.Reads source e := reads_iff_stages.mpr ⟨tokens, tree, ht, hp, hr⟩
  have hpos := s.maxDepth_pos
  have hnesting := hreads.nesting_le
  have hdepth : s'.maxDepth.toInt = 2 * s.maxDepth.toInt := by
    have htwo : (2 : Int64).toInt = 2 := rfl
    rw [hd, toInt_mul_of_lt (by rw [htwo]; omega) (by rw [htwo]; omega), htwo]
  obtain ⟨k, hk, hspells⟩ := Expr.spells_source hreads.formed hreads.literal
  obtain ⟨tokens, tree, ht, hparse, hn, he⟩ := hspells.single.stages
  refine ⟨tokens, tree, ht, hparse _ ?_, hparse _ ?_, resolve_start_eq_ok_iff.mpr ⟨?_, he⟩⟩
  · rw [Tree.toInt_guard_of_lt (by omega) (by omega)]
    omega
  · rw [Tree.toInt_guard_of_lt (by omega) (by omega)]
    omega
  · omega

/-- The text of the expression of `((1+2))#~(3 4,5)`. -/
theorem resolve_source_nested :
    ∃ tokens tree, Token.tokenize (Text.ofString "(1 + 2) # ~ (3 4 , 5)") = .ok tokens ∧
      Tree.parse 1000 tokens = .ok tree ∧ Tree.parse 2000 tokens = .ok tree ∧
      (tree.resolve (Context.start ⟨2000, 4194304⟩)).1 =
        .ok (.dyad (.dyad (.noun (.scalar 1)) 43 (.noun (.scalar 2))) 35
          (.monad 126 (.dyad (.noun (.vector #[3, 4])) 44 (.noun (.scalar 5))))) :=
  @resolve_source {} { depthLimit := 2000 } (Text.ofString "((1+2))#~(3 4,5)")
    (.dyad (.dyad (.noun (.scalar 1)) 43 (.noun (.scalar 2))) 35
      (.monad 126 (.dyad (.noun (.vector #[3, 4])) 44 (.noun (.scalar 5)))))
    _ _ (by decide) rfl rfl rfl rfl

end Settings

end Ravel
