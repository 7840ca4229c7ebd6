import Ravel.Proofs.Limits
import Ravel.Proofs.Readback

/-!
# Nouns and expressions as they are written

The text of a noun is a program. Whatever the rank of the noun, the text spells the expression
`Noun.written`, a literal or a reshape of one, and that expression has the noun as its value
(`Noun.Writable.value_written`). A run of the text thus rebuilds the noun (`Settings.run_source`);
only a vector of one element comes back as a scalar, since both are written as one number.

The text of an expression is a program as well, but it need not be grouped as the expression is. A
monadic verb takes the one term after it. An operand with a dyadic verb is written in parentheses
there, but a compound noun is not, although it is written as a reshape, and the verb takes the shape
alone. `Expr.reading` is the expression that the text spells (`Expr.begins_source`). It has the
value of the written one as long as only idle verbs stand before compound nouns
(`Expr.value_reading`).
-/

namespace Ravel

/-- A verb whose monadic form gives the noun itself. -/
def Verb.IsIdle (mark : UInt8) : Prop :=
  Verb.monadic? mark = some .identity ∨ Verb.monadic? mark = some .box

private theorem Verb.IsIdle.apply_eq {mark : UInt8} (h : Verb.IsIdle mark) (limit : Int64)
    (a : Noun) :
    Verb.apply limit none mark a = .ok a := by
  rcases h with h | h <;> simp only [Verb.apply, h] <;> rfl

/-! ### Texts that begin with a term -/

/-- An expression with a verb before its text, which takes the first term. -/
def Expr.under (mark : UInt8) : Expr → Expr
  | .dyad left verb right => .dyad (.monad mark left) verb right
  | e => .monad mark e

namespace Text

/-- A text begins with a term: it is the term alone, or a verb and an expression follow. -/
inductive Begins : Nat → Text → Expr → Prop where
  | term {k : Nat} {s : Text} {e : Expr} (h : s.Spells .term k e)
      (he : ∀ mark, e.under mark = .monad mark e) : Begins k s e
  | dyad {i j : Nat} {s t : Text} {l r : Expr} {verb : UInt8} (hl : s.Spells .term i l)
      (hv : (Verb.dyadic? verb).isSome) (hr : t.Spells .expression j r) :
      Begins (max i j + 1) (s ++ verb :: t) (.dyad l verb r)

variable {k : Nat} {s : Text} {e : Expr}

private theorem Begins.spells (h : Begins k s e) : s.Spells .expression k e := by
  cases h with
  | term h he => exact h.single
  | dyad hl hv hr => exact hl.dyad hv hr

private theorem Begins.spells_term (h : Begins k s e) (he : ∀ mark, e.under mark = .monad mark e) :
    s.Spells .term k e := by
  cases h with
  | term h _ => exact h
  | @dyad i j s t l r verb hl hv hr => cases he verb

private theorem Begins.monad (h : Begins k s e) {mark : UInt8} (hm : (Verb.monadic? mark).isSome) :
    ∃ j ≤ k + 1, Begins j (mark :: 32 :: s) (e.under mark) := by
  have hblank : Token.isBlank 32 := rfl
  cases h with
  | term h he =>
    rw [he mark]
    exact ⟨k + 1, Nat.le_refl _, .term ((h.cons_blank hblank).monad hm) fun _ ↦ rfl⟩
  | dyad hl hv hr => exact ⟨_, by omega, .dyad ((hl.cons_blank hblank).monad hm) hv hr⟩

end Text

namespace Noun

/-- A noun that literals can spell: it is exact, and neither an axis nor an element is negative. -/
structure Writable (a : Noun) : Prop where
  exact : a.Exact
  axes_nonneg : ∀ d ∈ a.shape, 0 ≤ d.toInt
  elements_nonneg : ∀ x ∈ a.data, 0 ≤ x.toInt

private theorem writable_iff {a : Noun} : a.Writable ↔ extent a.shape = a.size ∧
    a.shape.all (0 ≤ ·.toInt) = true ∧ a.data.toList.all (0 ≤ ·.toInt) = true := by
  simp only [List.all_eq_true, decide_eq_true_eq, Array.mem_toList_iff]
  exact ⟨fun h ↦ ⟨h.exact, h.axes_nonneg, h.elements_nonneg⟩, fun ⟨he, hd, hx⟩ ↦ ⟨he, hd, hx⟩⟩

instance (a : Noun) : Decidable a.Writable := decidable_of_iff _ writable_iff.symm

/-- The text of the elements of a noun, which are those of `~0` if there are none. -/
def contentText (a : Noun) : Text :=
  if a.data.isEmpty then Text.ofString "~0" else Text.ofInt64s a.data.toList

/-- The expression that gives the elements of a noun. -/
def content (a : Noun) : Expr :=
  if a.data.isEmpty then .monad 126 (.noun (.scalar 0)) else .noun (.ofElements a.data)

/-- The expression that gives a noun: its elements, reshaped if that takes more than a literal. -/
def written (a : Noun) : Expr :=
  if a.isCompound then .dyad (.noun (.ofElements a.shape.toArray)) 35 a.content else a.content

variable {a : Noun} {limit : Int64}

private theorem isCompound_eq_false_iff :
    a.isCompound = false ↔ a.rank ≤ 1 ∧ a.data.isEmpty = false := by
  rw [isCompound, Bool.or_eq_false_iff, decide_eq_false_iff_not, Nat.not_lt]

/-- A noun is written as its elements, with the shape before them if it is compound. -/
private theorem source_eq (a : Noun) : a.source =
    if a.isCompound then Expr.parenthesized (Text.ofInt64s a.shape) ++ 35 :: a.contentText
    else a.contentText := by
  cases hc : a.isCompound with
  | false =>
    obtain ⟨hr, he⟩ := isCompound_eq_false_iff.mp hc
    simp [source, contentText, hr, he]
  | true =>
    have hnot : ¬ (a.rank ≤ 1 && !a.data.isEmpty) = true := by
      rw [Bool.and_eq_true, decide_eq_true_eq, Bool.not_eq_true', ← isCompound_eq_false_iff, hc]
      exact Bool.noConfusion
    rw [source, if_neg hnot, if_pos rfl, Expr.parenthesized]
    simp only [List.append_assoc, contentText]
    rfl

private theorem under_content (a : Noun) (mark : UInt8) :
    a.content.under mark = .monad mark a.content := by
  unfold content
  split <;> rfl

/-! ### What the text of a noun spells -/

/-- The text of the elements of a noun spells the expression that gives them. -/
private theorem Writable.spells_contentText (h : a.Writable) :
    ∃ k ≤ 1, a.contentText.Spells .term k a.content := by
  unfold contentText content
  cases he : a.data.isEmpty with
  | true =>
    have hzero : Text.Spells .term 0 [48] (.noun (.scalar 0)) :=
      @Text.spells_ofInt64s #[0] (by simp) (by simp)
    exact ⟨1, Nat.le_refl 1, hzero.monad rfl⟩
  | false =>
    have hne : a.data ≠ #[] := by simpa using he
    exact ⟨0, Nat.zero_le 1, Text.spells_ofInt64s hne h.elements_nonneg⟩

/-- A compound noun is no scalar and no vector of one element. -/
private theorem Exact.not_isScalar (h : a.Exact) (hc : a.isCompound) : ¬ a.isScalar := by
  intro hs
  have hsize := h.size_eq_one hs
  have hrank : a.rank ≤ 1 := by
    rcases a.isScalar_iff.mp hs with hshape | hshape <;> rw [rank, hshape] <;> decide
  have hempty : a.data.isEmpty = false := by
    rw [← Bool.not_eq_true, Array.isEmpty_iff_size_eq_zero]
    rw [size] at hsize
    omega
  rw [isCompound_eq_false_iff.mpr ⟨hrank, hempty⟩] at hc
  cases hc

/-- Of the compound nouns only the empty vector is its own ravel. -/
private theorem Exact.ravel_eq_iff (h : a.Exact) (hc : a.isCompound) :
    a.ravel = a ↔ a.shape = [0] := by
  rw [Exact, size] at h
  constructor
  · intro hr
    have hshape : a.shape = [Int64.ofNat a.data.size] := (congrArg shape hr).symm
    have hempty : a.data.size = 0 := by
      rw [isCompound, rank, hshape, Bool.or_eq_true, Array.isEmpty_iff_size_eq_zero] at hc
      exact hc.resolve_left (by simp)
    rw [hshape, hempty]
    rfl
  · intro hs
    rw [hs, extent_cons, Int64.toInt_zero, Int.zero_mul] at h
    have hempty : a.data.size = 0 := by omega
    have hvector : a.ravel.shape = a.shape := by
      rw [hs, ravel, vector, hempty]
      rfl
    exact congrArg (Noun.mk · a.data) hvector

/-- The shape of a compound noun in parentheses spells the noun that lists its axes. -/
private theorem Writable.spells_shape (h : a.Writable) (hc : a.isCompound) :
    (Expr.parenthesized (Text.ofInt64s a.shape)).Spells .term 1
      (.noun (.ofElements a.shape.toArray)) := by
  have hne : a.shape.toArray ≠ #[] := by
    intro hn
    refine h.exact.not_isScalar hc (a.isScalar_iff.mpr (.inl ?_))
    simpa using hn
  have hspells := Text.spells_ofInt64s hne fun d hd ↦ h.axes_nonneg d (List.mem_toArray.mp hd)
  exact hspells.single.paren

private theorem Writable.begins_source (h : a.Writable) :
    ∃ k ≤ 2, Text.Begins k a.source a.written := by
  obtain ⟨k, hk, hcontent⟩ := h.spells_contentText
  rw [source_eq, written]
  split
  · next hc => exact ⟨max 1 k + 1, by omega, .dyad (h.spells_shape hc) rfl hcontent.single⟩
  · exact ⟨k, by omega, .term hcontent a.under_content⟩

/-! ### The value of a written noun -/

private theorem cycle_self (data : Array Int64) : cycle data.size data = data := by
  refine Array.ext_getElem? fun i ↦ ?_
  by_cases hi : i < data.size
  · rw [getElem?_cycle hi (by omega), Nat.mod_eq_of_lt hi]
  · rw [Array.getElem?_eq_none (by rw [size_cycle]; omega), Array.getElem?_eq_none (by omega)]

/-- The elements of a noun in its own shape are the noun. -/
private theorem Writable.reshape_eq_ok (h : a.Writable) (hl : 0 < limit.toInt)
    (hle : a.size ≤ limit.toInt)
    (hs : a.size ≤ storageLimit) {u v : Noun} (hr : u.rank ≤ 1) (hu : u.data.toList = a.shape)
    (hv : v.data = a.data) : u.reshape limit v = .ok a := by
  have hstorage : 1 ≤ storageLimit ∧ storageLimit < 0x8000000000000000 := by decide
  -- the noun fits the least positive limit that it could be built under, so it fits this one
  obtain ⟨least, hleast⟩ : ∃ least : Int64, least.toInt = max 1 a.size :=
    ⟨_, Int64.toInt_ofInt_of_le (by omega) (by omega)⟩
  refine @reshape_of_le least limit (by omega) (Int64.le_iff_toInt_le.mpr (by omega)) _ _ _ ?_
  have hextent : extent a.shape = a.size := h.exact
  have hfilled : ¬ (0 < extent a.shape ∧ a.data.isEmpty = true) := by
    rintro ⟨hpos, he⟩
    rw [Array.isEmpty_iff_size_eq_zero] at he
    rw [hextent, size, he] at hpos
    exact absurd hpos (by decide)
  rw [reshape_eq (by omega) (by omega) hr (by rw [hu]; exact h.axes_nonneg), hu, hv,
    if_neg (by omega), if_neg hfilled, hextent, Int.toNat_natCast, size, cycle_self]

/-- The expression that gives the elements of a noun has a value with these elements. -/
private theorem value_content (a : Noun) (hl : 0 < limit.toInt) :
    ∃ b, a.content.value limit = .ok b ∧ b.data = a.data := by
  unfold content
  cases he : a.data.isEmpty with
  | true =>
    have hiota : Verb.apply limit none 126 (scalar 0) = .ok (vector #[]) :=
      mapError_eq_ok_iff.mpr (iota_zero (Int.le_of_lt hl))
    exact ⟨vector #[], hiota, (Array.isEmpty_iff.mp he).symm⟩
  | false => exact ⟨ofElements a.data, rfl, rfl⟩

/-- The elements of a scalar or a vector denote it in a literal, unless it is a vector of one
element. -/
private theorem Exact.ofElements_eq (h : a.Exact) (hr : a.rank ≤ 1) :
    ofElements a.data = ⟨if a.shape = [1] then [] else a.shape, a.data⟩ := by
  rw [Exact, size] at h
  rw [ofElements]
  rcases hshape : a.shape with _ | ⟨n, _ | ⟨m, rest⟩⟩
  · rw [hshape, extent_nil] at h
    simp [show a.data.size = 1 by omega]
  · rw [hshape, extent_cons, extent_nil, Int.mul_one] at h
    have hlt := n.toInt_lt
    have hn : Int64.ofNat a.data.size = n :=
      Int64.toInt_inj.mp ((Int64.toInt_ofNat_of_lt (by omega)).trans h.symm)
    have hone : a.data.size = 1 ↔ n = 1 := by
      rw [← Int64.toInt_inj, Int64.toInt_one]
      omega
    simp [hn, hone]
  · rw [rank, hshape] at hr
    simp at hr

/-- Under a limit that it fits a noun is the value of the expression that it is written as, but for
a vector of one element, which is written as a scalar. -/
theorem Writable.value_written (h : a.Writable) (hl : 0 < limit.toInt)
    (hle : a.size ≤ limit.toInt) (hs : a.size ≤ storageLimit) :
    a.written.value limit = .ok ⟨if a.shape = [1] then [] else a.shape, a.data⟩ := by
  unfold written
  cases hc : a.isCompound with
  | true =>
    obtain ⟨b, hb, hdata⟩ := a.value_content hl
    have hne : a.shape ≠ [1] := fun h1 ↦ h.exact.not_isScalar hc (a.isScalar_iff.mpr (.inr h1))
    rw [if_pos rfl, if_neg hne, Expr.value, hb]
    exact mapError_eq_ok_iff.mpr
      (h.reshape_eq_ok hl hle hs (rank_ofElements_le_one _) (List.toList_toArray) hdata)
  | false =>
    obtain ⟨hr, he⟩ := isCompound_eq_false_iff.mp hc
    rw [if_neg Bool.false_ne_true, content, he, if_neg Bool.false_ne_true, Expr.value,
      h.exact.ofElements_eq hr]

end Noun

namespace Settings

/-- The text of a noun is a program that rebuilds it, whatever its rank and whether it has elements,
under every limit that it fits. -/
theorem run_source {s : Settings} {a : Noun} (hg : 2 * s.maxDepth.toInt + 2 < 0x8000000000000000)
    (hd : 2 ≤ s.maxDepth.toInt) (ha : a.Writable) (hle : a.size ≤ s.maxElements.toInt)
    (hs : a.size ≤ storageLimit) :
    (s.run a.source).result = .ok ⟨if a.shape = [1] then [] else a.shape, a.data⟩ := by
  obtain ⟨k, hk, hbegins⟩ := ha.begins_source
  have hreads : s.Reads a.source a.written :=
    (reads_iff_spells hg).mpr ⟨k, by omega, hbegins.spells⟩
  rw [run_of_reads hreads, ha.value_written s.maxElements_pos hle hs]
  rfl

/-- The longest axis around no elements, a matrix, and a vector of one element. -/
theorem run_source_forms :
    (({} : Settings).run (Text.ofString "(0 9223372036854775807)#~0")).result =
      .ok ⟨[0, 9223372036854775807], #[]⟩ ∧
    (({} : Settings).run (Text.ofString "(2 2)#5 0 7 8")).result = .ok ⟨[2, 2], #[5, 0, 7, 8]⟩ ∧
    (({} : Settings).run (Text.ofString "42")).result = .ok (.scalar 42) := by
  have h (a : Noun) (ha : a.Writable) (hle : a.size ≤ (4194304 : Int64).toInt)
      (hs : a.size ≤ storageLimit) :=
    @run_source {} a (by decide) (by decide) ha hle hs
  refine ⟨?_, ?_, ?_⟩
  · exact h ⟨[0, 9223372036854775807], #[]⟩ (by decide) (by decide) (by decide)
  · exact h ⟨[2, 2], #[5, 0, 7, 8]⟩ (by decide) (by decide) (by decide)
  · exact h ⟨[1], #[42]⟩ (by decide) (by decide) (by decide)

end Settings

/-! ### What the text of an expression spells -/

namespace Expr

/-- The expression that the text of an expression spells. -/
def reading : Expr → Expr
  | .noun a => a.written
  | .monad mark right =>
    match right.phrase with
    | .expression => .monad mark right.reading
    | .term => right.reading.under mark
  | .dyad left mark right => .dyad left.reading mark right.reading

/-- The text of an expression is that of a compound noun, perhaps after monadic verbs; a verb before
it takes the shape of the noun. -/
def opensWithShape : Expr → Bool
  | .noun a => a.isCompound
  | .monad _ right => right.opensWithShape
  | .dyad _ _ _ => false

/-- Where neither parentheses nor a compound noun follow, a verb takes all that is read. -/
private theorem under_reading {e : Expr} (ho : e.opensWithShape = false) (hp : e.phrase = .term)
    (mark : UInt8) : e.reading.under mark = .monad mark e.reading := by
  induction e generalizing mark with
  | noun a =>
    rw [opensWithShape] at ho
    rw [reading, Noun.written, ho]
    exact a.under_content mark
  | monad verb right ih =>
    rw [reading]
    cases hr : right.phrase with
    | expression => rfl
    | term =>
      rw [ih ho hr]
      rfl
  | dyad left verb right ihl ihr => cases hp

/-- The text of an expression begins with a term. Beyond the two levels of a noun there are at most
two for each verb, one of them for parentheses. -/
theorem begins_source {e : Expr} (hf : e.Formed) (hw : ∀ a ∈ e.nouns, a.Writable) :
    ∃ k ≤ 2 * e.nesting + 2, Text.Begins k e.source e.reading := by
  have hblank : Token.isBlank 32 := rfl
  induction e with
  | noun a => exact (hw a (List.mem_singleton_self a)).begins_source
  | monad mark right ih =>
    obtain ⟨hm, hr⟩ := hf
    obtain ⟨k, hk, hright⟩ := ih hr hw
    rw [source_monad (Verb.mem_marks_of_monadic? hm), reading, nesting]
    cases right.phrase with
    | expression =>
      exact ⟨k + 1 + 1, by omega,
        .term ((hright.spells.paren.cons_blank hblank).monad hm) fun _ ↦ rfl⟩
    | term =>
      -- the operand may be a reshape after all, so the invariant is kept and not a term
      obtain ⟨j, hj, hbegins⟩ := hright.monad hm
      exact ⟨j, by omega, hbegins⟩
  | dyad left mark right ihl ihr =>
    obtain ⟨hm, hfl, hfr⟩ := hf
    have hwl : ∀ a ∈ left.nouns, a.Writable := fun a ha ↦ hw a (List.mem_append_left _ ha)
    obtain ⟨j, hj, hleft⟩ := ihl hfl hwl
    obtain ⟨k, hk, hright⟩ := ihr hfr fun a ha ↦ hw a (List.mem_append_right _ ha)
    have hspells := hright.spells.cons_blank hblank
    rw [source_dyad (Verb.mem_marks_of_dyadic? hm), reading, nesting]
    split
    · exact ⟨max (j + 1) k + 1, by omega,
        .dyad (hleft.spells.paren.append_blank hblank) hm hspells⟩
    · next hc =>
      have hopens : left.opensWithShape = false := by
        cases left with
        | noun a => exact Bool.eq_false_iff.mpr hc
        | monad m r => exact absurd rfl hc
        | dyad l m r => exact absurd rfl hc
      have hterm := hleft.spells_term (under_reading hopens (phrase_of_not_isCompound hc))
      exact ⟨max j k + 1, by omega, .dyad (hterm.append_blank hblank) hm hspells⟩

/-! ### The value of a written expression -/

/-- Only idle verbs stand before compound nouns. -/
def Grouped : Expr → Prop
  | .noun _ => True
  | .monad mark right => (right.opensWithShape → Verb.IsIdle mark) ∧ right.Grouped
  | .dyad left _ right => left.Grouped ∧ right.Grouped

variable {limit : Int64}

/-- An idle verb may take the first term instead of all that follows. -/
private theorem value_under_of_isIdle {mark : UInt8} (h : Verb.IsIdle mark) (e : Expr) :
    (e.under mark).value limit = (monad mark e).value limit := by
  cases e with
  | noun a => rfl
  | monad m r => rfl
  | dyad l v r =>
    simp only [under, value]
    cases r.value limit with
    | error x => rfl
    | ok b =>
      cases l.value limit with
      | error x => rfl
      | ok a =>
        simp only [h.apply_eq]
        cases Verb.apply limit (some a) v b <;> rfl

/-- If every noun is the value of the expression that it is written as, and only idle verbs stand
before compound ones, the text of an expression is read as one of the same value. -/
theorem value_reading {e : Expr} (hg : e.Grouped)
    (hn : ∀ a ∈ e.nouns, a.written.value limit = .ok a) :
    e.reading.value limit = e.value limit := by
  induction e with
  | noun a => exact hn a (List.mem_singleton_self a)
  | monad mark right ih =>
    obtain ⟨hidle, hright⟩ := hg
    have hvalue : (monad mark right.reading).value limit = (monad mark right).value limit := by
      rw [value, ih hright hn, value]
    rw [← hvalue, reading]
    cases hp : right.phrase with
    | expression => rfl
    | term =>
      cases ho : right.opensWithShape with
      | true => exact value_under_of_isIdle (hidle ho) right.reading
      | false =>
        dsimp only
        rw [under_reading ho hp]
  | dyad left mark right ihl ihr =>
    obtain ⟨hl, hr⟩ := hg
    rw [reading, value, value, ihr hr fun a ha ↦ hn a (List.mem_append_right _ ha),
      ihl hl fun a ha ↦ hn a (List.mem_append_left _ ha)]

/-- What the text of a monadic verb before a compound noun comes to: the elements are reshaped to
what the verb makes of the shape. -/
private theorem value_reading_monad {mark : UInt8} {form : MonadicForm} {a v : Noun}
    (hm : Verb.monadic? mark = some form) (hc : a.isCompound)
    (hv : a.content.value limit = .ok v) {r : Noun} :
    (monad mark (noun a)).reading.value limit = .ok r ↔
      ∃ u, form.apply limit (.ofElements a.shape.toArray) = .ok u ∧ u.reshape limit v = .ok r := by
  have hreading : (monad mark (noun a)).reading =
      .dyad (.monad mark (.noun (.ofElements a.shape.toArray))) 35 a.content := by
    change a.written.under mark = _
    rw [Noun.written, hc]
    rfl
  rw [hreading]
  simp only [value, hv, Verb.apply, hm]
  cases form.apply limit (.ofElements a.shape.toArray) with
  | error x =>
    constructor
    · intro h
      cases h
    · rintro ⟨u, hu, -⟩
      cases hu
  | ok u =>
    have hreshape : (u.reshape limit v).mapError (Halt.map EvalError.value) = .ok r ↔
        u.reshape limit v = .ok r := mapError_eq_ok_iff
    refine hreshape.trans ⟨fun h ↦ ⟨u, rfl, h⟩, ?_⟩
    rintro ⟨u', hu, h⟩
    cases hu
    exact h

/-- The text of a verb before a compound noun comes to what the verb gives on the noun exactly if
the verb is idle, or if it ravels the empty vector. -/
private theorem value_reading_monad_iff {mark : UInt8} {a r : Noun} (ha : a.Writable)
    (hc : a.isCompound)
    (hl : 0 < limit.toInt) (hle : a.size ≤ limit.toInt) (hs : a.size ≤ storageLimit)
    (hr : (monad mark (noun a)).value limit = .ok r) :
    (monad mark (noun a)).reading.value limit = .ok r ↔
      Verb.IsIdle mark ∨ Verb.monadic? mark = some .ravel ∧ a.shape = [0] := by
  obtain ⟨v, hv, hdata⟩ := a.value_content hl
  have hreshape (u : Noun) (hu : u.rank ≤ 1) (hx : u.data.toList = a.shape) :
      u.reshape limit v = .ok a := ha.reshape_eq_ok hl hle hs hu hx hdata
  simp only [value, Verb.apply] at hr
  cases hm : Verb.monadic? mark with
  | none => rw [hm] at hr; cases hr
  | some form =>
    rw [hm] at hr
    replace hr : form.apply limit a = .ok r := mapError_eq_ok_iff.mp hr
    rw [value_reading_monad hm hc hv, Verb.IsIdle, hm]
    cases form with
    | identity =>
      cases hr
      exact iff_of_true ⟨_, rfl, hreshape _ (Noun.rank_ofElements_le_one _) rfl⟩ (.inl (.inl rfl))
    | box =>
      cases hr
      exact iff_of_true ⟨_, rfl, hreshape _ (Noun.rank_ofElements_le_one _) rfl⟩ (.inl (.inr rfl))
    | ravel =>
      -- the axes as a vector are the same axes, so the noun is given back with its shape
      cases hr
      have hread : (Noun.vector a.shape.toArray).reshape limit v = .ok a :=
        hreshape _ (Nat.le_refl 1) rfl
      have hravel := ha.exact.ravel_eq_iff hc
      constructor
      · rintro ⟨u, hu, h⟩
        cases hu
        rw [Noun.ravel, Noun.ofElements, hread] at h
        exact .inr ⟨rfl, hravel.mp (Except.ok.inj h).symm⟩
      · rintro ((h | h) | ⟨-, h⟩)
        · cases h
        · cases h
        · exact ⟨_, rfl, hread.trans (congrArg _ (hravel.mpr h).symm)⟩
    | tally =>
      -- the number of the axes is reshaped to a vector, and a tally is a scalar
      cases hr
      refine iff_of_false ?_ (by simp)
      rintro ⟨u, hu, h⟩
      cases hu
      cases Noun.shape_of_reshape h
    | iota =>
      have herror : a.iota limit = .error (.error (.iotaShape a.shape)) := by
        rw [Noun.iota, Bool.eq_false_iff.mpr (ha.exact.not_isScalar hc)]
        rfl
      cases herror.symm.trans hr

end Expr

namespace Settings

variable {s : Settings} {e : Expr}

/-- The limit of depth allows for the levels of whatever a text spells. -/
def Admits (s : Settings) (text : Text) : Prop :=
  ∀ k e, text.Spells .expression k e → (k : Int) ≤ s.maxDepth.toInt

private theorem admits_source (hf : e.Formed) (hw : ∀ a ∈ e.nouns, a.Writable)
    (hd : (2 * e.nesting + 2 : Int) ≤ s.maxDepth.toInt) : s.Admits e.source := by
  obtain ⟨j, hj, hbegins⟩ := Expr.begins_source hf hw
  intro k e' hspells
  obtain ⟨rfl, -⟩ := hspells.unique hbegins.spells
  omega

/-- The run of the text of an expression ends as the expression that the text is read as, which has
its value if only idle verbs stand before compound nouns. -/
theorem run_reading (hg : 2 * s.maxDepth.toInt + 2 < 0x8000000000000000)
    (hd : s.Admits e.source) (hf : e.Formed) (hw : ∀ b ∈ e.nouns, b.Writable)
    (hone : ∀ b ∈ e.nouns, b.shape ≠ [1]) (hle : ∀ b ∈ e.nouns, b.size ≤ s.maxElements.toInt)
    (hs : ∀ b ∈ e.nouns, b.size ≤ storageLimit) :
    (s.run e.source).result = (e.reading.value s.maxElements).mapError (Halt.map .eval) ∧
    ∀ (c : Context) (a : Noun), c.limits.elements = s.maxElements → (e.eval c).1 = .ok a →
      (e.Grouped → (s.run e.source).result = .ok a) ∧
      ∀ mark b, e = .monad mark (.noun b) → b.isCompound →
        ((s.run e.source).result = .ok a ↔
          Verb.IsIdle mark ∨ Verb.monadic? mark = some .ravel ∧ b.shape = [0]) := by
  have hpos := s.maxElements_pos
  obtain ⟨k, -, hbegins⟩ := Expr.begins_source hf hw
  have hreads : s.Reads e.source e.reading :=
    (reads_iff_spells hg).mpr ⟨k, hd k e.reading hbegins.spells, hbegins.spells⟩
  have hrun := run_of_reads hreads
  refine ⟨hrun, fun c a hc he ↦ ?_⟩
  have hvalue : e.value s.maxElements = .ok a := by
    rw [← hc]
    exact (Expr.value_of_eval (Prod.ext he rfl)).1
  rw [hrun, mapError_eq_ok_iff]
  constructor
  · intro hgrouped
    rw [Expr.value_reading hgrouped, hvalue]
    intro b hb
    rw [(hw b hb).value_written hpos (hle b hb) (hs b hb), if_neg (hone b hb)]
  · rintro mark b rfl hcompound
    have hb : b ∈ (Expr.monad mark (.noun b)).nouns := List.mem_singleton_self b
    exact Expr.value_reading_monad_iff (hw b hb) hcompound hpos (hle b hb) (hs b hb) hvalue

/-- Rows on the left of a verb and rows after an idle one, and the ravel of the empty vector. -/
theorem run_reading_rows :
    (({} : Settings).run (Text.ofString "((1 2)#1 2) , < (2 2)#3 4 5 6")).result =
      .ok ⟨[3, 2], #[1, 2, 3, 4, 5, 6]⟩ ∧
    (({} : Settings).run (Text.ofString ", (0)#~0")).result = .ok (.vector #[]) := by
  have h (e : Expr) (hd : (2 * e.nesting + 2 : Int) ≤ (1000 : Int64).toInt) (hf : e.Formed)
      (hw : ∀ b ∈ e.nouns, b.Writable) (hone : ∀ b ∈ e.nouns, b.shape ≠ [1])
      (hle : ∀ b ∈ e.nouns, b.size ≤ (4194304 : Int64).toInt)
      (hs : ∀ b ∈ e.nouns, b.size ≤ storageLimit) :=
    (@run_reading {} e (by decide) (admits_source hf hw hd) hf hw hone hle hs).2
      (Context.start ({} : Settings).limits)
  constructor
  · exact (h (.dyad (.noun ⟨[1, 2], #[1, 2]⟩) 44 (.monad 60 (.noun ⟨[2, 2], #[3, 4, 5, 6]⟩)))
      (by decide) ⟨rfl, trivial, rfl, trivial⟩ (by decide) (by decide) (by decide) (by decide)
      _ rfl rfl).1 ⟨trivial, fun _ ↦ .inr rfl, trivial⟩
  · exact ((h (.monad 44 (.noun ⟨[0], #[]⟩)) (by decide) ⟨rfl, trivial⟩ (by decide) (by decide)
      (by decide) (by decide) _ rfl rfl).2 44 _ rfl rfl).mpr (.inr ⟨rfl, rfl⟩)

/-- The tally of a matrix with two rows is written as `# (2 3)#1 2 3 4 5 6`, where the verb counts
the axes. -/
theorem run_tally_of_matrix :
    ((Expr.monad 35 (.noun ⟨[2, 3], #[1, 2, 3, 4, 5, 6]⟩)).eval
      (Context.start ({} : Settings).limits)).1 = .ok (.scalar 2) ∧
    (({} : Settings).run (Expr.monad 35 (.noun ⟨[2, 3], #[1, 2, 3, 4, 5, 6]⟩)).source).result =
      .ok (.vector #[1, 2]) :=
  ⟨rfl, by with_unfolding_all rfl⟩

end Settings

end Ravel
