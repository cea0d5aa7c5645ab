import Mathlib.Tactic.Ring

namespace RangeCut

variable {α : Type}

/-- The values of `f` on the `n` places from `o` on. -/
def span (f : Nat → α) (o n : Nat) : List α := (List.range n).map fun i => f (o + i)

/-- A range cut at the multiples of `size`, as pairs of a start and a length; `fuel` bounds the number
of pieces. -/
def cut (size : Nat) : Nat → Nat → Nat → List (Nat × Nat)
  | 0, _, _ => []
  | fuel + 1, o, n =>
    if n = 0 then []
    else
      (o, min (size - o % size) n) ::
        cut size fuel (o + min (size - o % size) n) (n - min (size - o % size) n)

/-- As there are no empty pieces, there are at most as many of them as there are places. -/
def pieces (size o n : Nat) : List (Nat × Nat) := cut size n o n

/-- The pieces of a range: none is empty, each begins where the one before ends and lies in one block,
and each but the last goes up to the end of its block. -/
inductive Tiles (size : Nat) : Nat → Nat → List (Nat × Nat) → Prop
  | nil (o : Nat) : Tiles size o 0 []
  | cons {o k m : Nat} {ps : List (Nat × Nat)} (pos : 0 < k) (inside : o % size + k ≤ size)
    (full : m ≠ 0 → o % size + k = size) (rest : Tiles size (o + k) m ps) :
    Tiles size o (k + m) ((o, k) :: ps)

theorem span_length (f : Nat → α) (o n : Nat) : (span f o n).length = n := by
  rw [span, List.length_map, List.length_range]

theorem span_zero (f : Nat → α) (o : Nat) : span f o 0 = [] := rfl

theorem span_append (f : Nat → α) (o k m : Nat) :
    span f o k ++ span f (o + k) m = span f o (k + m) := by
  unfold span
  rw [List.range_add, List.map_append, List.map_map]
  congr 1
  apply List.map_congr_left
  intro i _
  show f (o + k + i) = f (o + (k + i))
  rw [Nat.add_assoc]

theorem span_take (f : Nat → α) (o n m : Nat) : (span f o n).take m = span f o (min m n) := by
  unfold span
  rw [← List.map_take, List.take_range]

theorem span_eq_iff {f g : Nat → α} {o o' n : Nat} :
    span f o n = span g o' n ↔ ∀ i < n, f (o + i) = g (o' + i) := by
  unfold span
  rw [List.map_inj_left]
  constructor
  · intro h i hi
    exact h i (List.mem_range.mpr hi)
  · intro h i hi
    exact h i (List.mem_range.mp hi)

theorem cut_tiles {size : Nat} (hsize : 0 < size) {fuel o n : Nat} (hfuel : n ≤ fuel) :
    Tiles size o n (cut size fuel o n) := by
  induction fuel generalizing o n with
  | zero =>
    obtain rfl : n = 0 := by omega
    exact Tiles.nil o
  | succ fuel ih =>
    rw [cut]
    by_cases hn : n = 0
    · rw [if_pos hn, hn]
      exact Tiles.nil o
    · rw [if_neg hn]
      have hmod : o % size < size := Nat.mod_lt o hsize
      obtain ⟨k, hk⟩ : ∃ k, k = min (size - o % size) n := ⟨_, rfl⟩
      rw [← hk]
      have hrest : Tiles size (o + k) (n - k) (cut size fuel (o + k) (n - k)) := ih (by omega)
      have htiles := Tiles.cons (by omega) (by omega) (by omega) hrest
      rwa [Nat.add_sub_cancel' (by omega)] at htiles

theorem pieces_tiles {size : Nat} (hsize : 0 < size) (o n : Nat) : Tiles size o n (pieces size o n) :=
  cut_tiles hsize (Nat.le_refl n)

/-- The pieces put together are the range. -/
theorem Tiles.flatten {size o n : Nat} {ps : List (Nat × Nat)} (h : Tiles size o n ps)
    (f : Nat → α) : (ps.map fun p => span f p.1 p.2).flatten = span f o n := by
  induction h with
  | nil o => rfl
  | @cons o k m ps pos inside full rest ih =>
    rw [List.map_cons, List.flatten_cons, ih]
    exact span_append f o k m

theorem Tiles.mem {size o n : Nat} {ps : List (Nat × Nat)} (h : Tiles size o n ps) {p : Nat × Nat}
    (hp : p ∈ ps) :
    o ≤ p.1 ∧ p.1 + p.2 ≤ o + n ∧ 0 < p.2 ∧ p.1 % size + p.2 ≤ size := by
  induction h with
  | nil o => cases hp
  | @cons o k m ps pos inside full rest ih =>
    rcases List.mem_cons.mp hp with rfl | hmem
    · exact ⟨Nat.le_refl o, by omega, pos, inside⟩
    · obtain ⟨hge, hle, hpos, hin⟩ := ih hmem
      exact ⟨by omega, by omega, hpos, hin⟩

end RangeCut
