import Mathlib.Tactic.Ring

namespace ListWindow

variable {α : Type}

/-- The elements from position `lo` up to `hi`. -/
def slice (xs : List α) (lo hi : Nat) : List α := (xs.take hi).drop lo

/-- `xs` with `ys` written over it from position `o` on; what does not fit is left out. -/
def store (xs : List α) (o : Nat) (ys : List α) : List α :=
  xs.mapIdx fun i x => if o ≤ i then (ys[i - o]?).getD x else x

section Slice

variable {xs : List α} {lo mid hi : Nat}

theorem getElem?_slice (xs : List α) (lo hi i : Nat) :
    (slice xs lo hi)[i]? = if lo + i < hi then xs[lo + i]? else none := by
  rw [slice, List.getElem?_drop, List.getElem?_take]

theorem length_slice (hhi : hi ≤ xs.length) : (slice xs lo hi).length = hi - lo := by
  rw [slice, List.length_drop, List.length_take, Nat.min_eq_left hhi]

theorem slice_append (hlo : lo ≤ mid) (hhi : mid ≤ hi) :
    slice xs lo mid ++ slice xs mid hi = slice xs lo hi := by
  have hcut : xs.take hi = xs.take mid ++ slice xs mid hi := by
    rw [slice, ← Nat.min_eq_left hhi, ← List.take_take, Nat.min_eq_left hhi,
      List.take_append_drop]
  have hwhole : slice xs lo hi = (xs.take mid ++ slice xs mid hi).drop lo :=
    congrArg (List.drop lo) hcut
  by_cases hmid : mid ≤ xs.length
  · rw [hwhole, List.drop_append_of_le_length (by rw [List.length_take]; omega), slice]
  · have hnil : slice xs mid hi = [] := by
      rw [slice, List.drop_eq_nil_iff, List.length_take]
      omega
    rw [hwhole, hnil, List.append_nil, List.append_nil, slice]

end Slice

section Store

variable {xs ys zs : List α} {o i : Nat}

@[simp] theorem length_store (xs : List α) (o : Nat) (ys : List α) :
    (store xs o ys).length = xs.length := List.length_mapIdx

theorem getElem?_store_inside (hi : i < ys.length) (hin : o + i < xs.length) :
    (store xs o ys)[o + i]? = ys[i]? := by
  have hindex : o + i - o = i := by omega
  rw [store, List.getElem?_mapIdx, List.getElem?_eq_getElem hin, Option.map_some,
    if_pos (by omega), hindex, List.getElem?_eq_getElem hi, Option.getD_some]

theorem getElem?_store_outside (hi : i < o ∨ o + ys.length ≤ i) :
    (store xs o ys)[i]? = xs[i]? := by
  rw [store, List.getElem?_mapIdx]
  by_cases ho : o ≤ i
  · have hnone : ys[i - o]? = none := List.getElem?_eq_none (by omega)
    simp only [if_pos ho, hnone, Option.getD_none, Option.map_id_fun', id]
  · simp only [if_neg ho, Option.map_id_fun', id]

theorem store_nil (xs : List α) (o : Nat) : store xs o [] = xs := by
  apply List.ext_getElem?
  intro i
  rw [getElem?_store_outside]
  rw [List.length_nil]
  omega

/-- Two writes side by side are one. -/
theorem store_store (xs : List α) (o : Nat) (ys zs : List α) :
    store (store xs o ys) (o + ys.length) zs = store xs o (ys ++ zs) := by
  apply List.ext_getElem?
  intro i
  by_cases hlen : i < xs.length
  · by_cases hbefore : i < o
    · rw [getElem?_store_outside (by omega), getElem?_store_outside (by omega),
        getElem?_store_outside (by omega)]
    · obtain ⟨k, rfl⟩ : ∃ k, i = o + k := ⟨i - o, by omega⟩
      by_cases hys : k < ys.length
      · rw [getElem?_store_outside (by omega), getElem?_store_inside hys hlen,
          getElem?_store_inside (by rw [List.length_append]; omega) hlen,
          List.getElem?_append_left hys]
      · by_cases hzs : k < ys.length + zs.length
        · have hplace : o + k = o + ys.length + (k - ys.length) := by omega
          rw [getElem?_store_inside (by rw [List.length_append]; omega) hlen,
            List.getElem?_append_right (by omega), hplace,
            getElem?_store_inside (by omega) (by rw [length_store]; omega)]
        · rw [getElem?_store_outside (by omega), getElem?_store_outside (by omega),
            getElem?_store_outside (by rw [List.length_append]; omega)]
  · rw [List.getElem?_eq_none (by simp only [length_store]; omega),
      List.getElem?_eq_none (by rw [length_store]; omega)]

theorem slice_store_before {lo hi : Nat} (hhi : hi ≤ o) :
    slice (store xs o ys) lo hi = slice xs lo hi := by
  apply List.ext_getElem?
  intro i
  rw [getElem?_slice, getElem?_slice]
  split
  next hin => exact getElem?_store_outside (by omega)
  next => rfl

/-- The written part, as far as it is read. -/
theorem slice_store_self {n : Nat} (hn : n ≤ ys.length) (hin : o + n ≤ xs.length) :
    slice (store xs o ys) o (o + n) = ys.take n := by
  apply List.ext_getElem?
  intro i
  rw [getElem?_slice, List.getElem?_take]
  by_cases hi : i < n
  · rw [if_pos (by omega), if_pos hi, getElem?_store_inside (by omega) (by omega)]
  · rw [if_neg (by omega), if_neg hi]

end Store

end ListWindow
