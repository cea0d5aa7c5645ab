import Mathlib.Data.List.Lex
import Mathlib.Tactic.Ring

/-! Numbers as positions: intervals laid one after another, and digits from the highest to the
lowest. -/

namespace Positional

/-- The first number of the interval `h`, when intervals of the given sizes are laid one after
another. -/
def start (size : Nat → Nat) : Nat → Nat
  | 0 => 0
  | h + 1 => start size h + size h

section Start

variable {size : Nat → Nat} {h h' y y' : Nat}

theorem start_add_le (hlt : h < h') : start size h + size h ≤ start size h' := by
  induction h' with
  | zero => omega
  | succ n ih =>
    rw [start]
    rcases Nat.lt_succ_iff_lt_or_eq.mp hlt with hn | rfl
    · exact (ih hn).trans (Nat.le_add_right _ _)
    · exact le_rfl

theorem start_lt_iff (hy : y < size h) (hy' : y' < size h') :
    start size h + y < start size h' + y' ↔ h < h' ∨ h = h' ∧ y < y' := by
  rcases Nat.lt_trichotomy h h' with hlt | rfl | hgt
  · have hle : start size h + size h ≤ start size h' := start_add_le hlt
    exact iff_of_true (by omega) (Or.inl hlt)
  · omega
  · have hle : start size h' + size h' ≤ start size h := start_add_le hgt
    refine iff_of_false (by omega) ?_
    rintro (hlt | ⟨heq, -⟩) <;> omega

theorem exists_start {n block : Nat} (hlt : block < start size n) :
    ∃ h y, h < n ∧ y < size h ∧ block = start size h + y := by
  induction n with
  | zero => cases hlt
  | succ n ih =>
    rw [start] at hlt
    by_cases hn : block < start size n
    · obtain ⟨h, y, hh, hy, heq⟩ := ih hn
      exact ⟨h, y, by omega, hy, heq⟩
    · exact ⟨n, block - start size n, by omega, by omega, by omega⟩

end Start

/-- The `n` digits of a number to the base `p`, the highest first. -/
def digits (p : Nat) : Nat → Nat → List Nat
  | 0, _ => []
  | n + 1, v => v / p ^ n :: digits p n (v % p ^ n)

section Digits

variable {p n v w : Nat}

theorem digits_length : (digits p n v).length = n := by
  induction n generalizing v with
  | zero => rfl
  | succ n ih => rw [digits, List.length_cons, ih]

theorem lt_iff_div_mod {m : Nat} (hm : 0 < m) :
    v < w ↔ v / m < w / m ∨ v / m = w / m ∧ v % m < w % m := by
  have hv := Nat.div_add_mod v m
  have hw := Nat.div_add_mod w m
  have hvm := Nat.mod_lt v hm
  have hwm := Nat.mod_lt w hm
  rcases Nat.lt_trichotomy (v / m) (w / m) with hlt | heq | hgt
  · have hle : m * (v / m + 1) ≤ m * (w / m) := Nat.mul_le_mul_left m hlt
    rw [Nat.mul_succ] at hle
    exact iff_of_true (by omega) (Or.inl hlt)
  · rw [heq] at hv
    omega
  · have hle : m * (w / m + 1) ≤ m * (v / m) := Nat.mul_le_mul_left m hgt
    rw [Nat.mul_succ] at hle
    refine iff_of_false (by omega) ?_
    rintro (hlt | ⟨heq, -⟩) <;> omega

/-- Numbers are ordered as their digits are, lexicographically. -/
theorem digits_lt_iff (hp : 0 < p) (hv : v < p ^ n) (hw : w < p ^ n) :
    digits p n v < digits p n w ↔ v < w := by
  induction n generalizing v w with
  | zero =>
    rw [Nat.pow_zero] at hv hw
    exact iff_of_false (List.lt_irrefl []) (by omega)
  | succ n ih =>
    have hpow : 0 < p ^ n := Nat.pow_pos hp
    rw [digits, digits, List.cons_lt_cons_iff,
      ih (Nat.mod_lt v hpow) (Nat.mod_lt w hpow), ← lt_iff_div_mod hpow]

theorem lt_of_mem_digits (hp : 0 < p) (hv : v < p ^ n) {d : Nat} (hd : d ∈ digits p n v) :
    d < p := by
  induction n generalizing v with
  | zero => cases hd
  | succ n ih =>
    have hpow : 0 < p ^ n := Nat.pow_pos hp
    rcases List.mem_cons.mp hd with rfl | hd
    · exact Nat.div_lt_of_lt_mul (by rwa [Nat.pow_succ] at hv)
    · exact ih (Nat.mod_lt v hpow) hd

theorem exists_digits {ds : List Nat} (hds : ∀ d ∈ ds, d < p) :
    ∃ v < p ^ ds.length, digits p ds.length v = ds := by
  induction ds with
  | nil => exact ⟨0, by simp, rfl⟩
  | cons d ds ih =>
    obtain ⟨v, hv, hdigits⟩ := ih fun d' hd' => hds d' (List.mem_cons_of_mem _ hd')
    have hd := hds d List.mem_cons_self
    have hle : p ^ ds.length * (d + 1) ≤ p ^ ds.length * p := Nat.mul_le_mul_left _ hd
    rw [Nat.mul_succ] at hle
    refine ⟨p ^ ds.length * d + v, ?_, ?_⟩
    · rw [List.length_cons, Nat.pow_succ]
      omega
    · rw [List.length_cons, digits, Nat.mul_add_mod, Nat.mod_eq_of_lt hv, hdigits,
        Nat.mul_add_div (by omega), Nat.div_eq_of_lt hv, Nat.add_zero]

end Digits

end Positional
