import Mathlib.Tactic.Ring

namespace SlotBuffer

variable {α : Type}

/-- The value of a slot; one that was never written, or was moved out of, has none. -/
def cell (s : List (Option α)) (i : Nat) : Option α := s[i]?.join

/-- Move the value out of a slot. -/
def read (s : List (Option α)) (i : Nat) : Option (α × List (Option α)) :=
  (cell s i).map fun x => (x, s.set i none)

def write (s : List (Option α)) (i : Nat) (x : α) : Option (List (Option α)) :=
  if i < s.length then some (s.set i (some x)) else none

/-- Move `count` slots from `src` on to those from `dst` on; the two may overlap. -/
def move (s : List (Option α)) (src dst count : Nat) : Option (List (Option α)) :=
  if src + count ≤ s.length ∧ dst + count ≤ s.length then
    some (s.mapIdx fun i o =>
      if dst ≤ i ∧ i < dst + count then cell s (src + (i - dst))
      else if src ≤ i ∧ i < src + count then none
      else o)
  else none

def swap (s : List (Option α)) (i j : Nat) : Option (List (Option α)) :=
  if i < s.length ∧ j < s.length then some ((s.set i (cell s j)).set j (cell s i)) else none

/-- The same values in a buffer of `n` slots. -/
def resize (s : List (Option α)) (n : Nat) : List (Option α) :=
  s.take n ++ List.replicate (n - s.length) none

/-- The values of `count` slots from `start` on, where all of them have one. -/
def slice (s : List (Option α)) : Nat → Nat → Option (List α)
  | _, 0 => some []
  | start, count + 1 => do
    let x ← cell s start
    let xs ← slice s (start + 1) count
    return x :: xs

variable {s : List (Option α)} {i j n start : Nat} {x : α} {xs : List α} {o : Option α}

theorem cell_set_self (h : i < s.length) : cell (s.set i o) i = o := by
  rw [cell, List.getElem?_set_self h, Option.join_some]

theorem cell_set_ne (h : i ≠ j) : cell (s.set i o) j = cell s j := by
  rw [cell, List.getElem?_set_ne h, cell]

theorem length_resize (s : List (Option α)) (n : Nat) : (resize s n).length = n := by
  rw [resize, List.length_append, List.length_take, List.length_replicate]
  omega

theorem cell_resize (h : s.length ≤ n) (j : Nat) : cell (resize s n) j = cell s j := by
  rw [resize, List.take_of_length_le h, cell, cell]
  rcases Nat.lt_or_ge j s.length with hj | hj
  · rw [List.getElem?_append_left hj]
  · rw [List.getElem?_append_right hj, List.getElem?_eq_none hj, List.getElem?_replicate]
    split <;> rfl

theorem read_eq (h : cell s i = some x) : read s i = some (x, s.set i none) := by
  rw [read, h, Option.map_some]

theorem write_eq (h : i < s.length) : write s i x = some (s.set i (some x)) := if_pos h

theorem cell_move {src dst count : Nat} {s' : List (Option α)} (h : move s src dst count = some s')
    (j : Nat) : s'.length = s.length ∧ cell s' j =
      if dst ≤ j ∧ j < dst + count then cell s (src + (j - dst))
      else if src ≤ j ∧ j < src + count then none
      else cell s j := by
  rw [move] at h
  split at h
  next hfits =>
    cases h
    refine ⟨List.length_mapIdx, ?_⟩
    rw [cell, List.getElem?_mapIdx]
    rcases Nat.lt_or_ge j s.length with hj | hj
    · have hcell : cell s j = s[j] := by rw [cell, List.getElem?_eq_getElem hj, Option.join_some]
      rw [List.getElem?_eq_getElem hj, Option.map_some, Option.join_some, hcell]
    · have hnot : ¬ (dst ≤ j ∧ j < dst + count) := by omega
      have hnone : cell s j = none := by rw [cell, List.getElem?_eq_none hj, Option.join_none]
      rw [List.getElem?_eq_none hj, Option.map_none, Option.join_none, if_neg hnot, hnone, ite_self]
  next => cases h

/-- The slots from `start` on hold the values of `xs`. -/
def Holds (s : List (Option α)) (start : Nat) (xs : List α) : Prop :=
  ∀ j, j < xs.length → cell s (start + j) = xs[j]?

namespace Holds

theorem nil (s : List (Option α)) (start : Nat) : Holds s start [] := by
  intro j hj
  exact absurd hj (Nat.not_lt_zero j)

theorem head (h : Holds s start (x :: xs)) : cell s start = some x :=
  h 0 (Nat.succ_pos _)

theorem tail (h : Holds s start (x :: xs)) : Holds s (start + 1) xs := by
  intro j hj
  have hnext := h (j + 1) (Nat.succ_lt_succ hj)
  rw [List.getElem?_cons_succ] at hnext
  rw [← hnext, Nat.add_assoc, Nat.add_comm 1 j]

theorem slice_eq (h : Holds s start xs) : slice s start xs.length = some xs := by
  induction xs generalizing start with
  | nil => rfl
  | cons x xs ih =>
    rw [List.length_cons, slice, h.head, ih h.tail]
    rfl

theorem set (h : Holds s start xs) (hout : i < start ∨ start + xs.length ≤ i) :
    Holds (s.set i o) start xs := by
  intro j hj
  rw [cell_set_ne (by omega)]
  exact h j hj

theorem resize (h : Holds s start xs) (hn : s.length ≤ n) : Holds (resize s n) start xs := by
  intro j hj
  rw [cell_resize hn]
  exact h j hj

theorem take (h : Holds s start xs) (n : Nat) : Holds s start (xs.take n) := by
  intro j hj
  rw [List.length_take] at hj
  rw [h j (by omega), List.getElem?_take_of_lt (by omega)]

theorem drop (h : Holds s start xs) (n : Nat) : Holds s (start + n) (xs.drop n) := by
  intro j hj
  rw [List.length_drop] at hj
  rw [Nat.add_assoc, h (n + j) (by omega), List.getElem?_drop]

theorem dropLast (h : Holds s start xs) : Holds s start xs.dropLast := by
  rw [List.dropLast_eq_take]
  exact h.take _

theorem write (h : Holds s 0 xs) (hroom : xs.length < s.length) :
    Holds (s.set xs.length (some x)) 0 (xs ++ [x]) := by
  intro j hj
  rw [List.length_append, List.length_singleton] at hj
  rw [Nat.zero_add]
  rcases Nat.lt_or_ge j xs.length with hlt | hge
  · rw [cell_set_ne (by omega), List.getElem?_append_left hlt, ← h j hlt, Nat.zero_add]
  · have hlast : j = xs.length := by omega
    subst hlast
    rw [cell_set_self hroom, List.getElem?_concat_length]

/-- Closing the gap that a removed value leaves. -/
theorem move (h : Holds s 0 xs) (hi : i < xs.length) (hfits : xs.length ≤ s.length) :
    ∃ s', move (s.set i none) (i + 1) i (xs.length - i - 1) = some s' ∧ s'.length = s.length ∧
      Holds s' 0 (xs.eraseIdx i) := by
  have hroom : i + 1 + (xs.length - i - 1) ≤ (s.set i none).length ∧
      i + (xs.length - i - 1) ≤ (s.set i none).length := by
    rw [List.length_set]
    omega
  obtain ⟨s', hmove⟩ :
      ∃ s', SlotBuffer.move (s.set i none) (i + 1) i (xs.length - i - 1) = some s' := by
    rw [SlotBuffer.move, if_pos hroom]
    exact ⟨_, rfl⟩
  refine ⟨s', hmove, (cell_move hmove 0).1.trans List.length_set, fun j hj => ?_⟩
  rw [List.length_eraseIdx_of_lt hi] at hj
  rw [Nat.zero_add, (cell_move hmove j).2]
  rcases Nat.lt_or_ge j i with hlt | hge
  · have hnext := h j (by omega)
    rw [Nat.zero_add] at hnext
    rw [if_neg (by omega), if_neg (by omega), cell_set_ne (by omega), hnext,
      List.getElem?_eraseIdx_of_lt hlt]
  · have hnext := h (j + 1) (by omega)
    have hfrom : i + 1 + (j - i) = 0 + (j + 1) := by omega
    rw [if_pos (by omega), cell_set_ne (by omega), hfrom, hnext, List.getElem?_eraseIdx_of_ge hge]

/-- Exchanging a value with the last one. -/
theorem swap (h : Holds s 0 xs) (hi : i + 1 < xs.length) (hfits : xs.length ≤ s.length) {y : α}
    (hx : xs[i]? = some x) (hy : xs[xs.length - 1]? = some y) :
    ∃ s', swap s i (xs.length - 1) = some s' ∧ s'.length = s.length ∧
      cell s' (xs.length - 1) = some x ∧ Holds s' 0 (xs.set i y).dropLast := by
  have hlast : xs.length - 1 < (s.set i (cell s (xs.length - 1))).length := by
    rw [List.length_set]
    omega
  have hci : cell s i = some x := by
    have hcell := h i (by omega)
    rw [Nat.zero_add] at hcell
    exact hcell.trans hx
  have hcl : cell s (xs.length - 1) = some y := by
    have hcell := h (xs.length - 1) (by omega)
    rw [Nat.zero_add] at hcell
    exact hcell.trans hy
  refine ⟨_, if_pos ⟨by omega, by omega⟩, ?_, ?_, fun j hj => ?_⟩
  · rw [List.length_set, List.length_set]
  · rw [cell_set_self hlast, hci]
  · rw [List.length_dropLast, List.length_set] at hj
    have hjcell := h j (by omega)
    rw [Nat.zero_add] at hjcell
    rw [Nat.zero_add, cell_set_ne (by omega), List.getElem?_dropLast, List.length_set,
      if_pos (by omega)]
    by_cases hij : i = j
    · subst hij
      rw [cell_set_self (by omega), hcl, List.getElem?_set_self (by omega)]
    · rw [cell_set_ne hij, hjcell, List.getElem?_set_ne hij]

end Holds

end SlotBuffer
