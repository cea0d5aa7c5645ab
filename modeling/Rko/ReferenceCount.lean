import Mathlib.Tactic.Ring

namespace ReferenceCount

variable {w : Nat} {count : BitVec w} {refs frees : Nat}

/-- A counter of `w` bits that tells the number of references to an object; the object is freed
once, when there is none. -/
structure Counts (count : BitVec w) (refs frees : Nat) : Prop where
  count_eq : count = BitVec.ofNat w refs
  bound : refs < 2 ^ w
  frees_eq : frees = if refs = 0 then 1 else 0

namespace Counts

/-- A reference is taken from one that there is, and the counter does not wrap round. -/
theorem inc (h : Counts count refs frees) (hpos : 0 < refs) (hroom : refs + 1 < 2 ^ w) :
    Counts (count + 1) (refs + 1) frees := by
  refine ⟨?_, hroom, ?_⟩
  · rw [BitVec.ofNat_add, ← h.count_eq]
    rfl
  · rw [h.frees_eq, if_neg (Nat.ne_of_gt hpos), if_neg (Nat.succ_ne_zero refs)]

/-- The test for the last reference is exact as long as the counter has not wrapped round. -/
theorem eq_one_iff (h : Counts count refs frees) (hw : 0 < w) : count = 1 ↔ refs = 1 := by
  have hone : (1 : BitVec w).toNat = 1 := by
    rw [BitVec.ofNat_eq_ofNat, BitVec.toNat_ofNat]
    exact Nat.mod_eq_of_lt (Nat.one_lt_two_pow (Nat.ne_of_gt hw))
  rw [h.count_eq, ← BitVec.toNat_inj, BitVec.toNat_ofNat, Nat.mod_eq_of_lt h.bound, hone]

/-- A reference is given back, and whoever gives back the last one frees the object. -/
theorem dec (h : Counts count (refs + 1) frees) (hw : 0 < w) :
    Counts (count - 1) refs (if count = 1 then frees + 1 else frees) := by
  have hbound := h.bound
  refine ⟨?_, by omega, ?_⟩
  · rw [h.count_eq, BitVec.ofNat_add]
    exact BitVec.add_sub_cancel _ _
  · have hnone : frees = 0 := h.frees_eq.trans (if_neg (Nat.succ_ne_zero refs))
    have hlast : count = 1 ↔ refs = 0 := by
      rw [h.eq_one_iff hw]
      omega
    rw [hnone]
    exact if_congr hlast rfl rfl

end Counts

end ReferenceCount
