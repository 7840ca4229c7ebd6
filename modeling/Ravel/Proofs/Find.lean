import Mathlib.Data.List.Basic
import Ravel.Proofs.Select

/-!
# Finding elements

Find gives for each element of one noun the first position of its value among the elements of
another one: the positions are entered into a map from the last one on, which agrees with a search
from the first one on (`getElem?_firstPositions`). Selecting from a scalar or a vector by what was
found gives the elements back, unless one of them does not occur (`find_exact`).
-/

namespace Ravel.Noun

/-! ### First positions -/

/-- The first position of a value among elements: the value is there, and nowhere before. -/
def FirstAt (data : Array Int64) (x : Int64) (i : Nat) : Prop :=
  data[i]? = some x ∧ ∀ j < i, data[j]? ≠ some x

/-- The position that find gives for a value. -/
def positionIn (data : Array Int64) (x : Int64) : Int64 :=
  match data.toList.idxOf? x with
  | some i => Int64.ofNat i
  | none => -1

section Positions

variable {data : Array Int64} {x : Int64} {i : Nat}

/-- The positions that are entered from the last one on are those of a search from the first one
on. -/
theorem getElem?_firstPositions (data : Array Int64) (x : Int64) :
    (firstPositions data)[x]? = data.toList.idxOf? x := by
  have hfold (xs : List Int64) (n : Nat) :
      ((xs.zipIdx n).foldr (fun p m ↦ m.insert p.1 p.2) (∅ : Std.HashMap Int64 Nat))[x]? =
        (xs.idxOf? x).map (· + n) := by
    induction xs generalizing n with
    | nil => simp
    | cons y xs ih =>
      -- the first element is entered last, over any later position of the same value
      rw [List.zipIdx_cons, List.foldr_cons, Std.HashMap.getElem?_insert, ih, List.idxOf?_cons]
      split
      · simp
      · rw [Option.map_map]
        congr 1
        funext i
        simp only [Function.comp_apply]
        omega
  rw [firstPositions, hfold]
  simp

private theorem find_eq (u v : Noun) : u.find v = ⟨u.shape, u.data.map (positionIn v.data)⟩ := by
  unfold find
  simp only [getElem?_firstPositions]
  rfl

private theorem idxOf?_eq_some_iff_firstAt : data.toList.idxOf? x = some i ↔ FirstAt data x i := by
  rw [List.idxOf?_eq_some_iff, FirstAt]
  constructor
  · rintro ⟨hi, rfl, hbefore⟩
    refine ⟨?_, fun j hj hx ↦ ?_⟩
    · rw [← Array.getElem?_toList, List.getElem?_eq_getElem hi]
    · rw [← Array.getElem?_toList, List.getElem?_eq_some_iff] at hx
      obtain ⟨hj', hx⟩ := hx
      exact hbefore j hj hx
  · rintro ⟨hx, hbefore⟩
    rw [← Array.getElem?_toList, List.getElem?_eq_some_iff] at hx
    obtain ⟨hi, hx⟩ := hx
    refine ⟨hi, hx, fun j hj he ↦ hbefore j hj ?_⟩
    rw [← Array.getElem?_toList, List.getElem?_eq_some_iff]
    exact ⟨by omega, he⟩

private theorem FirstAt.lt_size (h : FirstAt data x i) : i < data.size :=
  (Array.getElem?_eq_some_iff.mp h.1).1

/-- The position of a value is the first one that holds it, or -1 if none does. -/
private theorem positionIn_cases (hs : data.size < 0x8000000000000000) (x : Int64) :
    (∃ i : Nat, FirstAt data x i ∧ (positionIn data x).toInt = i) ∨
      (x ∉ data ∧ (positionIn data x).toInt = -1) := by
  unfold positionIn
  cases hx : data.toList.idxOf? x with
  | some i =>
    have hfirst := idxOf?_eq_some_iff_firstAt.mp hx
    have hlt := hfirst.lt_size
    exact .inl ⟨i, hfirst, Int64.toInt_ofNat_of_lt (by omega)⟩
  | none =>
    rw [List.idxOf?_eq_none_iff, Array.mem_toList_iff] at hx
    exact .inr ⟨hx, rfl⟩

end Positions

/-! ### Selecting what was found -/

section Inverse

variable {limit : Int64} {v k : Noun}

private theorem select_congr_limit (limit' : Int64)
    (h : (Int64.ofNat k.size * product v.itemShape).toInt ≤ limit.toInt)
    (h' : (Int64.ofNat k.size * product v.itemShape).toInt ≤ limit'.toInt) :
    k.select limit v = k.select limit' v := by
  unfold select checkCount
  simp only [Int64.lt_iff_toInt_lt]
  rw [if_neg (Int.not_lt.mpr h), if_neg (Int.not_lt.mpr h')]

variable (hv : v.Exact) (hr : v.rank ≤ 1)
include hv hr

private theorem toInt_items_of_rank_le_one : v.items.toInt = v.size := by
  have h := hv.items_mul
  rwa [itemShape_of_rank_le_one hr, extent_nil, Int.mul_one] at h

variable (hk : (k.size : Int) ≤ limit.toInt) (hst : (k.size : Int) ≤ storageLimit)
include hk hst

/-- Positions in a scalar or a vector select elements, under any limit that admits as many. -/
private theorem select_elements : k.select limit v =
    match k.data.toList.find? (isMissing v.items) with
    | some i => .error (.error (.itemOutOfRange i v.items))
    | none => .ok ⟨k.shape, (k.data.toList.flatMap (itemAt 1 v.data)).toArray⟩ := by
  have hitem := itemShape_of_rank_le_one hr
  have hlimit := limit.toInt_lt
  have hsize := toInt_items_of_rank_le_one hv hr
  have hitems := v.items.toInt_lt
  have hcount : (Int64.ofNat k.size).toInt = k.size := Int64.toInt_ofNat_of_lt (by omega)
  have hproduct : (Int64.ofNat k.size * product v.itemShape).toInt = k.size := by
    rw [hitem]
    show (Int64.ofNat k.size * 1).toInt = k.size
    rw [Int64.mul_one, hcount]
  rw [select_congr_limit (Int64.ofNat k.size) (by omega) (by omega),
    select_eq (by omega) hv (by omega) (by rw [hitem]; decide) (by rw [hitem]; decide)
      (by rw [hitem, extent_nil]; omega),
    if_neg (by rw [hitem, extent_nil]; omega), hitem, List.append_nil]
  rfl

end Inverse

section Found

variable {data : Array Int64} {x : Int64}

/-- What find gives for a value is the position of an item exactly if the value occurs. -/
private theorem isMissing_positionIn_eq_false_iff {items : Int64} (hi : items.toInt = data.size) :
    isMissing items (positionIn data x) = false ↔ x ∈ data := by
  have hs : data.size < 0x8000000000000000 := by
    have := items.toInt_lt
    omega
  rw [isMissing_eq_false_iff]
  rcases positionIn_cases hs x with ⟨i, hfirst, hp⟩ | ⟨hx, hp⟩
  · have hsize := hfirst.lt_size
    exact ⟨fun _ ↦ Array.mem_of_getElem? hfirst.1, fun _ ↦ by omega⟩
  · exact ⟨fun h ↦ by omega, fun h ↦ absurd h hx⟩

/-- The element at the position of a value that occurs is the value. -/
private theorem itemAt_positionIn (hs : data.size < 0x8000000000000000) (hx : x ∈ data) :
    itemAt 1 data (positionIn data x) = [x] := by
  rcases positionIn_cases hs x with ⟨i, hfirst, hp⟩ | ⟨hn, -⟩
  · have hi : data.toList[i]? = some x := by
      rw [Array.getElem?_toList]
      exact hfirst.1
    rw [itemAt, hp, Int.toNat_natCast, Nat.mul_one, List.take_one, List.head?_drop, hi]
    rfl
  · exact absurd hx hn

end Found

section FindSelect

variable {limit : Int64} {u v : Noun} (hv : v.Exact) (hr : v.rank ≤ 1)
  (hu : (u.size : Int) ≤ limit.toInt) (hst : (u.size : Int) ≤ storageLimit)
include hv hr hu hst

/-- Elements that all occur are selected again by their positions. -/
private theorem select_find_of_mem (h : ∀ x ∈ u.data, x ∈ v.data) :
    (u.find v).select limit v = .ok u := by
  have hi := toInt_items_of_rank_le_one hv hr
  have hs : v.size < 0x8000000000000000 := by
    have := v.items.toInt_lt
    omega
  have hsize : (u.find v).size = u.size := Array.size_map
  have hdata : (u.find v).data.toList = u.data.toList.map (positionIn v.data) := by
    rw [find_eq, Array.toList_map]
  have hnone : (u.find v).data.toList.find? (isMissing v.items) = none := by
    rw [hdata, List.find?_eq_none]
    intro p hp
    obtain ⟨x, hx, rfl⟩ := List.mem_map.mp hp
    have hmem := h x (Array.mem_toList_iff.mp hx)
    rw [(isMissing_positionIn_eq_false_iff hi).mpr hmem]
    exact Bool.false_ne_true
  have hitems : (u.find v).data.toList.flatMap (itemAt 1 v.data) = u.data.toList := by
    rw [hdata, List.flatMap_map]
    calc u.data.toList.flatMap (fun x ↦ itemAt 1 v.data (positionIn v.data x))
        = u.data.toList.flatMap (fun x ↦ [x]) :=
          List.flatMap_congr fun x hx ↦
            itemAt_positionIn hs (h x (Array.mem_toList_iff.mp hx))
      _ = u.data.toList := by simp
  rw [select_elements hv hr (by omega) (by omega), hnone, hitems]
  rfl

/-- An element that does not occur is found at -1, which is out of range. -/
private theorem select_find_of_not_mem {x : Int64} (hx : x ∈ u.data) (h : x ∉ v.data) :
    FailsWith .indexOutOfRange ((u.find v).select limit v) := by
  have hi := toInt_items_of_rank_le_one hv hr
  have hsize : (u.find v).size = u.size := Array.size_map
  rw [select_elements hv hr (by omega) (by omega)]
  cases hm : (u.find v).data.toList.find? (isMissing v.items) with
  | some p => exact ⟨_, rfl, rfl⟩
  | none =>
    have hp : positionIn v.data x ∈ (u.find v).data.toList := by
      rw [find_eq, Array.mem_toList_iff]
      exact Array.mem_map_of_mem hx
    have hpresent : isMissing v.items (positionIn v.data x) = false :=
      Bool.eq_false_iff.mpr (List.find?_eq_none.mp hm _ hp)
    exact absurd ((isMissing_positionIn_eq_false_iff hi).mp hpresent) h

end FindSelect

/-- Find gives the first position of each element, or -1, and selecting at these positions undoes
it. -/
theorem find_exact {limit : Int64} {u v : Noun} (hv : v.Exact)
    (hs : v.size < 0x8000000000000000) :
    (u.find v).shape = u.shape ∧ (u.find v).size = u.size ∧
    (∀ x, (firstPositions v.data)[x]? = v.data.toList.idxOf? x) ∧
    (∀ (i : Nat) (x : Int64), u.data[i]? = some x → ∃ p : Int64, (u.find v).data[i]? = some p ∧
      ((∃ j : Nat, FirstAt v.data x j ∧ p.toInt = j) ∨ (x ∉ v.data ∧ p.toInt = -1))) ∧
    (v.rank ≤ 1 → (u.size : Int) ≤ limit.toInt → (u.size : Int) ≤ storageLimit →
      ((∀ x ∈ u.data, x ∈ v.data) → (u.find v).select limit v = .ok u) ∧
      ∀ x ∈ u.data, x ∉ v.data → FailsWith .indexOutOfRange ((u.find v).select limit v)) := by
  refine ⟨rfl, Array.size_map, getElem?_firstPositions v.data, ?positions, ?selected⟩
  case positions =>
    intro i x hx
    refine ⟨positionIn v.data x, ?_, positionIn_cases hs x⟩
    rw [find_eq, Array.getElem?_map, hx]
    rfl
  case selected =>
    intro hr hu hst
    exact ⟨select_find_of_mem hv hr hu hst, fun x hx h ↦ select_find_of_not_mem hv hr hu hst hx h⟩

/-- In `5 7 5` the value 5 is found at its first position, a matrix of 7 and 5 is selected again,
and 6 is not there. -/
theorem find_exact_repeated :
    let v : Noun := vector #[5, 7, 5]
    let u : Noun := ⟨[2, 2], #[7, 5, 5, 7]⟩
    (∃ p : Int64, (u.find v).data[1]? = some p ∧ p.toInt = 0) ∧
    (u.find v).select 4 v = .ok u ∧
    FailsWith .indexOutOfRange (((vector #[5, 6]).find v).select 4 v) := by
  intro v u
  have hv : v.Exact := rfl
  obtain ⟨-, -, -, hpositions, hselected⟩ := @find_exact 4 u v hv (by decide)
  obtain ⟨-, -, -, -, hmissing⟩ := @find_exact 4 (vector #[5, 6]) v hv (by decide)
  refine ⟨?_, ?_, ?_⟩
  · obtain ⟨p, hp, ⟨j, hfirst, hj⟩ | ⟨hnot, -⟩⟩ := hpositions 1 5 rfl
    · have hzero : j = 0 := by
        by_contra hne
        exact hfirst.2 0 (Nat.pos_of_ne_zero hne) rfl
      exact ⟨p, hp, by omega⟩
    · exact absurd (by simp [v, vector]) hnot
  · exact (hselected (by decide) (by decide) (by decide)).1 (by simp [u, v, vector])
  · exact (hmissing (by decide) (by decide) (by decide)).2 6 (by simp [vector])
      (by simp [v, vector])

end Ravel.Noun
