import Ravel.Proofs.Append
import Ravel.Proofs.Elementwise
import Ravel.Proofs.Reshape
import Ravel.Proofs.Select
import Ravel.Proofs.Value

/-!
# Sound nouns through an evaluation

Every verb makes sound nouns of sound nouns, and the only fault that a verb can end in is that of a
selection whose count overflows. What every verb keeps (`Verb.Keeps`) passes along an expression
from its literals to every noun that an evaluation comes to. So all of these are sound, and the
evaluation ends in a fault exactly if it comes to such a selection.
-/

namespace Ravel

/-- A limit of elements within a bound that keeps the products of two counts 64-bit integers. -/
structure Fits (limit : Int64) (bound : Nat) : Prop where
  pos : 0 < limit.toInt
  le : limit.toInt ≤ bound
  small : bound ≤ 0x80000000

variable {limit : Int64} {bound : Nat}

private theorem Fits.le_storageLimit (hf : Fits limit bound) : limit.toInt ≤ storageLimit := by
  have := hf.le
  have := hf.small
  rw [storageLimit]
  omega

namespace Noun

/-- A scalar is sound. -/
theorem scalar_sound (hf : Fits limit bound) (x : Int64) : (scalar x).Sound bound := by
  refine ⟨rfl, fun d hd ↦ absurd hd List.not_mem_nil, ?_⟩
  have := hf.pos
  have := hf.le
  show 1 ≤ bound
  omega

/-- A vector within the bound is sound. -/
theorem vector_sound (hb : bound ≤ 0x80000000) {xs : Array Int64} (hx : xs.size ≤ bound) :
    (vector xs).Sound bound := by
  refine ⟨?_, fun d hd ↦ absurd hd List.not_mem_nil, hx⟩
  have hn : (Int64.ofNat xs.size).toInt = xs.size := Int64.toInt_ofNat_of_lt (by omega)
  rw [Exact, vector, extent_cons, extent_nil, Int.mul_one, hn]
  rfl

/-- Iota of a sound noun ends in an error or a sound noun. -/
private theorem iota_safe (hf : Fits limit bound) {a : Noun} (ha : a.Sound bound) :
    SafeOutcome bound (a.iota limit) := by
  unfold iota
  split
  · exact True.intro
  · next hs =>
    obtain ⟨n, hn⟩ := ha.exact.element_zero (by simpa using hs)
    rw [hn]
    dsimp only
    split
    · exact True.intro
    · next h0 =>
      rw [checkCount]
      split
      · exact True.intro
      · next hl =>
        rw [Int64.lt_iff_toInt_lt] at h0 hl
        rw [Int64.toInt_zero] at h0
        have hle := hf.le
        have hst : isStorable n = true := by
          have := hf.le_storageLimit
          rw [isStorable, Bool.and_eq_true, decide_eq_true_eq, decide_eq_true_eq]
          omega
        rw [hst]
        have hz : ((Array.range n.toInt.toNat).map Int64.ofNat).size = n.toInt.toNat := by
          rw [Array.size_map, Array.size_range]
        refine ⟨?_, fun d hd ↦ absurd hd List.not_mem_nil, ?_⟩
        · rw [Exact, size, hz, extent_cons, extent_nil]
          omega
        · rw [size, hz]
          omega

end Noun

private theorem MonadicForm.apply_safe (hf : Fits limit bound) (form : MonadicForm) {a : Noun}
    (ha : a.Sound bound) : Noun.SafeOutcome bound (form.apply limit a) := by
  cases form with
  | identity => exact ha
  | iota => exact Noun.iota_safe hf ha
  | tally => exact Noun.scalar_sound hf _
  | ravel => exact Noun.vector_sound hf.small ha.size_le
  | box => exact ha

/-- Dyadic verbs end in an error or a sound noun, but for a selection that overflows. -/
private theorem DyadicForm.apply_safe (hf : Fits limit bound) (form : DyadicForm) {u v : Noun}
    (hu : u.Sound bound) (hv : v.Sound bound) (h : form = .from → ¬ u.SelectOverflows v) :
    Noun.SafeOutcome bound (form.apply limit u v) := by
  cases form with
  | add => exact Noun.elementwise_safe hu hv
  | find => exact hu.find v
  | reshape => exact Noun.reshape_safe hf.pos hf.le hf.le_storageLimit
  | «from» => exact Noun.select_safe hf.le hf.small hu hv (h rfl)
  | append => exact Noun.append_safe hf.le hf.small hu hv
  | lessThan =>
    rw [apply, Noun.lessThan]
    exact Noun.elementwise_safe hu hv

namespace Verb

/-- The application of `{` to two nouns whose count overflows. -/
def Overflows (left : Option Noun) (mark : UInt8) (right : Noun) : Prop :=
  ∃ u, left = some u ∧ mark = 123 ∧ u.SelectOverflows right

/-- Putting an error in other words keeps the invariant. -/
private theorem safeOutcome_mapError {r : Except (Halt ValueError) Noun}
    (h : Noun.SafeOutcome bound r) :
    Noun.SafeOutcome bound (r.mapError (Halt.map EvalError.value)) := by
  cases r with
  | ok a => exact h
  | error e =>
    cases e with
    | error x => exact True.intro
    | fault f => exact h

private theorem eq_of_dyadic?_from {mark : UInt8} (h : dyadic? mark = some .from) : mark = 123 := by
  unfold dyadic? at h
  repeat' split at h
  all_goals first | assumption | cases h

variable {left : Option Noun} {mark : UInt8} {right : Noun}

/-- Without an overflow a verb ends in an error or a sound noun. -/
private theorem apply_safe (hf : Fits limit bound) (hl : ∀ u, left = some u → u.Sound bound)
    (hr : right.Sound bound) (h : ¬ Overflows left mark right) :
    Noun.SafeOutcome bound (apply limit left mark right) := by
  unfold apply
  cases left with
  | none =>
    dsimp only
    cases monadic? mark with
    | none => exact True.intro
    | some form => exact safeOutcome_mapError (form.apply_safe hf hr)
  | some u =>
    dsimp only
    cases hm : dyadic? mark with
    | none => exact True.intro
    | some form =>
      refine safeOutcome_mapError (form.apply_safe hf (hl u rfl) hr ?_)
      rintro rfl ho
      exact h ⟨u, rfl, eq_of_dyadic?_from hm, ho⟩

private theorem apply_of_overflows (hf : Fits limit bound) (h : Overflows left mark right) :
    apply limit left mark right = .error (.fault .capacityOutOfRange) := by
  obtain ⟨u, rfl, rfl, ho⟩ := h
  have hs := Noun.select_fault hf.le_storageLimit (Int.le_of_lt hf.pos) ho
  show (u.select limit right).mapError (Halt.map EvalError.value) = _
  rw [hs]
  rfl

/-- A property of nouns that passes from the operands of a verb to its result. -/
def Keeps (limit : Int64) (P : Noun → Prop) : Prop :=
  ∀ (left : Option Noun) (mark : UInt8) (right a : Noun), (∀ u, left = some u → P u) → P right →
    apply limit left mark right = .ok a → P a

/-- What a verb makes of sound nouns is sound. -/
theorem keeps_sound (hf : Fits limit bound) : Keeps limit (Noun.Sound bound) := by
  intro left mark right a hl hr h
  by_cases ho : Overflows left mark right
  · rw [apply_of_overflows hf ho] at h
    cases h
  · have hs := apply_safe hf hl hr ho
    rw [h] at hs
    exact hs

/-- A verb ends in a fault exactly if it is a selection that overflows. -/
private theorem apply_eq_fault_iff (hf : Fits limit bound) (hl : ∀ u, left = some u → u.Sound bound)
    (hr : right.Sound bound) {f : Fault} : apply limit left mark right = .error (.fault f) ↔
      f = .capacityOutOfRange ∧ Overflows left mark right := by
  by_cases ho : Overflows left mark right
  · rw [apply_of_overflows hf ho]
    simp [ho, eq_comm]
  · have hs := apply_safe hf hl hr ho
    constructor
    · intro h
      rw [h] at hs
      exact hs.elim
    · exact fun h ↦ absurd h.2 ho

end Verb

namespace Expr

/-- The nouns that stand in an expression. -/
def nouns : Expr → List Noun
  | .noun a => [a]
  | .monad _ right => right.nouns
  | .dyad left _ right => left.nouns ++ right.nouns

/-- What every verb keeps passes from the nouns of an expression to its value. -/
theorem value_of_keeps {P : Noun → Prop} (hk : Verb.Keeps limit P) {e : Expr}
    (he : ∀ a ∈ e.nouns, P a) {a : Noun} (h : e.value limit = .ok a) : P a := by
  induction e generalizing a with
  | noun b =>
    cases h
    exact he b (List.mem_singleton_self b)
  | monad mark right ih =>
    rw [value] at h
    cases hr : right.value limit with
    | error x => rw [hr] at h; cases h
    | ok b =>
      rw [hr] at h
      exact hk none mark b a (fun u hu ↦ by cases hu) (ih he hr) h
  | dyad left mark right ihl ihr =>
    rw [value] at h
    cases hr : right.value limit with
    | error x => rw [hr] at h; cases h
    | ok b =>
      cases hl : left.value limit with
      | error x => rw [hr, hl] at h; cases h
      | ok c =>
        rw [hr, hl] at h
        have hc : P c := ihl (fun a ha ↦ he a (List.mem_append_left _ ha)) hl
        have hb : P b := ihr (fun a ha ↦ he a (List.mem_append_right _ ha)) hr
        refine hk (some c) mark b a ?_ hb h
        rintro u ⟨⟩
        exact hc

/-- What every verb keeps passes from the nouns of an expression to those that its verbs are applied
to. -/
theorem Applies.of_keeps {P : Noun → Prop} (hk : Verb.Keeps limit P) {e : Expr}
    {l : Option Noun} {m : UInt8} {r : Noun} (h : e.Applies limit l m r)
    (he : ∀ a ∈ e.nouns, P a) : (∀ u, l = some u → P u) ∧ P r := by
  induction h with
  | monad hr =>
    rw [nouns] at he
    refine ⟨fun u hu ↦ ?_, value_of_keeps hk he hr⟩
    cases hu
  | dyad hr hl =>
    have hb := value_of_keeps hk (fun a ha ↦ he a (List.mem_append_right _ ha)) hr
    refine ⟨?_, hb⟩
    rintro u ⟨⟩
    exact value_of_keeps hk (fun a ha ↦ he a (List.mem_append_left _ ha)) hl
  | monadRight _ ih => exact ih he
  | dyadRight _ ih => exact ih fun a ha ↦ he a (List.mem_append_right _ ha)
  | dyadLeft _ _ ih => exact ih fun a ha ↦ he a (List.mem_append_left _ ha)

/-- An expression of sound nouns ends in a fault exactly if it comes to a selection that
overflows. -/
theorem value_eq_fault_iff_overflows (hf : Fits limit bound) {e : Expr}
    (he : ∀ a ∈ e.nouns, a.Sound bound) {f : Fault} : e.value limit = .error (.fault f) ↔
      f = .capacityOutOfRange ∧ ∃ u v, e.Applies limit (some u) 123 v ∧ u.SelectOverflows v := by
  rw [value_eq_fault_iff]
  constructor
  · rintro ⟨l, m, r, ha, h⟩
    obtain ⟨hl, hr⟩ := ha.of_keeps (Verb.keeps_sound hf) he
    obtain ⟨rfl, u, rfl, rfl, ho⟩ := (Verb.apply_eq_fault_iff hf hl hr).mp h
    exact ⟨rfl, u, r, ha, ho⟩
  · rintro ⟨rfl, u, v, ha, ho⟩
    exact ⟨some u, 123, v, ha, Verb.apply_of_overflows hf ⟨u, rfl, rfl, ho⟩⟩

end Expr

end Ravel
