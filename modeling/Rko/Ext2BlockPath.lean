import Mathlib.Tactic.IntervalCases
import Rko.Ext2BlockMap
import Rko.Positional

namespace Rko

open Positional

def treeBlocks (p : Nat) : Nat := 12 + p + p * p + p * p * p

/-- The path to a block through the tree of pointers, by division with remainder. -/
def blockPath (p block : Nat) : Option (List Nat) :=
  if block < 12 then some [block]
  else if block < 12 + p then some [12, block - 12]
  else if block < 12 + p + p * p then
    some [13, (block - 12 - p) / p, (block - 12 - p) % p]
  else if block < treeBlocks p then
    some [14, (block - 12 - p - p * p) / (p * p), (block - 12 - p - p * p) / p % p,
      (block - 12 - p - p * p) % p]
  else none

theorem trailingZeros_of_pow {x : UInt64} {j : Nat} (hj : j ≤ 14) (hx : x.toNat = 2 ^ j) :
    trailingZeros x = j := by
  unfold trailingZeros
  rw [hx]
  interval_cases j <;> decide

namespace Ext2Fs

theorem div_four_of_pow {n k : Nat} (hn : n = 2 ^ (10 + k)) : n / 4 = 2 ^ (8 + k) := by
  rw [hn, Nat.pow_add, Nat.pow_add]
  omega

theorem ptrs_toNat {bs : UInt32} {k : Nat} (hbs : bs.toNat = 2 ^ (10 + k)) :
    (bs / 4).toUInt64.toNat = 2 ^ (8 + k) := by
  rw [UInt32.toNat_toUInt64, UInt32.toNat_div]
  exact div_four_of_pow hbs

theorem shiftRight_ptrBits {k : Nat} (hk : k ≤ 6) (x : UInt64) :
    (x >>> UInt64.ofNat (8 + k)).toNat = x.toNat / 2 ^ (8 + k) := by
  rw [UInt64.toNat_shiftRight, Nat.shiftRight_eq_div_pow]
  interval_cases k <;> rfl

theorem shiftRight_ptrBits_twice {k : Nat} (hk : k ≤ 6) (x : UInt64) :
    (x >>> (2 * UInt64.ofNat (8 + k))).toNat = x.toNat / (2 ^ (8 + k) * 2 ^ (8 + k)) := by
  rw [UInt64.toNat_shiftRight, Nat.shiftRight_eq_div_pow]
  interval_cases k <;> rfl

theorem one_shiftLeft_ptrBits {k : Nat} (hk : k ≤ 6) :
    ((1 : UInt64) <<< (2 * UInt64.ofNat (8 + k))).toNat = 2 ^ (8 + k) * 2 ^ (8 + k) := by
  interval_cases k <;> rfl

theorem and_ptrMask {k : Nat} {ptrs : UInt64} (hp : ptrs.toNat = 2 ^ (8 + k)) (x : UInt64) :
    (x &&& (ptrs - 1)).toNat = x.toNat % 2 ^ (8 + k) := by
  have hpos : 0 < 2 ^ (8 + k) := Nat.two_pow_pos _
  have hle : 1 ≤ ptrs := by
    rw [UInt64.le_iff_toNat_le, hp]
    exact hpos
  rw [UInt64.toNat_and, UInt64.toNat_sub_of_le _ _ hle, hp]
  exact Nat.and_two_pow_sub_one_eq_mod _ _

theorem ptrs_bounds {k : Nat} (hk : k ≤ 6) :
    2 ^ (8 + k) ≤ 2 ^ 14 ∧ 2 ^ (8 + k) * 2 ^ (8 + k) ≤ 2 ^ 28 ∧
      2 ^ (8 + k) * 2 ^ (8 + k) * 2 ^ (8 + k) ≤ 2 ^ 42 := by
  interval_cases k <;> decide

theorem toUInt32_toNat {x : UInt64} (hx : x.toNat < 2 ^ 32) : x.toUInt32.toNat = x.toNat := by
  rw [UInt64.toNat_toUInt32, Nat.mod_eq_of_lt hx]

theorem toUInt64_eq_zero {x : UInt32} : x.toUInt64 = 0 ↔ x = 0 := by
  rw [← UInt64.toNat_inj, ← UInt32.toNat_inj, UInt32.toNat_toUInt64]
  rfl

/-- The bit operations on block numbers are division with remainder by the entries of a table, and the
products of `offsets` are far from the end of their type. -/
structure TableWidth (ptrs ptrBits : UInt64) (p : Nat) : Prop where
  ptrs_eq : ptrs.toNat = p
  pos : 0 < p
  mask : ∀ x : UInt64, (x &&& (ptrs - 1)).toNat = x.toNat % p
  shift : ∀ x : UInt64, (x >>> ptrBits).toNat = x.toNat / p
  shift_twice : ∀ x : UInt64, (x >>> (2 * ptrBits)).toNat = x.toNat / (p * p)
  one_shift : ((1 : UInt64) <<< (2 * ptrBits)).toNat = p * p
  bits_small : ptrBits.toNat ≤ 14
  bounds : p ≤ 2 ^ 14 ∧ p * p ≤ 2 ^ 28 ∧ p * p * p ≤ 2 ^ 42

theorem tableWidth_of_pow {bs : UInt32} {k : Nat} (hk : k ≤ 6) (hbs : bs.toNat = 2 ^ (10 + k)) :
    TableWidth (bs / 4).toUInt64 (UInt64.ofNat (trailingZeros (bs / 4).toUInt64)) (2 ^ (8 + k)) := by
  have hp := ptrs_toNat hbs
  rw [trailingZeros_of_pow (by omega) hp]
  exact
    { ptrs_eq := hp
      pos := Nat.two_pow_pos _
      mask := and_ptrMask hp
      shift := shiftRight_ptrBits hk
      shift_twice := shiftRight_ptrBits_twice hk
      one_shift := one_shiftLeft_ptrBits hk
      bits_small := by
        rw [UInt64.toNat_ofNat_of_lt' (by show 8 + k < 2 ^ 64; omega)]
        omega
      bounds := ptrs_bounds hk }

section Width

variable {ptrs ptrBits : UInt64} {p : Nat} (hw : TableWidth ptrs ptrBits p)

include hw

theorem TableWidth.square : (ptrs * ptrs).toNat = p * p := by
  have hb := hw.bounds
  rw [UInt64.toNat_mul, hw.ptrs_eq, Nat.mod_eq_of_lt (by omega)]

theorem TableWidth.cube : (ptrs * ptrs * ptrs).toNat = p * p * p := by
  have hb := hw.bounds
  rw [UInt64.toNat_mul, hw.square, hw.ptrs_eq, Nat.mod_eq_of_lt (by omega)]

end Width

/-- The bit operations of `offsets` compute the path by division with remainder. -/
theorem offsets_path {bs : UInt32} {k : Nat} (hk : k ≤ 6) (hbs : bs.toNat = 2 ^ (10 + k))
    (block : UInt64) :
    (offsets bs block).map (List.map UInt32.toNat) = blockPath (2 ^ (8 + k)) block.toNat := by
  have hw := tableWidth_of_pow hk hbs
  unfold offsets
  dsimp only
  generalize UInt64.ofNat (trailingZeros (bs / 4).toUInt64) = ptrBits at hw
  generalize (bs / 4).toUInt64 = ptrs at hw
  generalize 2 ^ (8 + k) = p at hw
  have hsq := hw.square
  have hcube := hw.cube
  obtain ⟨hp, hpos, hmask, hshift, hshift2, hone, -, hb1, hb2, hb3⟩ := hw
  have h12 : (UInt64.ofNat EXT2_NDIR_BLOCKS).toNat = 12 := by decide
  unfold blockPath treeBlocks
  by_cases hdirect : block.toNat < 12
  · rw [if_pos (UInt64.lt_iff_toNat_lt.mpr (by omega)), if_pos hdirect]
    simp [toUInt32_toNat (x := block) (by omega)]
  have h1 : (block - UInt64.ofNat EXT2_NDIR_BLOCKS).toNat = block.toNat - 12 := by
    rw [UInt64.toNat_sub_of_le _ _ (UInt64.le_iff_toNat_le.mpr (by omega)), h12]
  rw [if_neg (by rw [UInt64.lt_iff_toNat_lt]; omega), if_neg hdirect]
  generalize block - UInt64.ofNat EXT2_NDIR_BLOCKS = b1 at h1
  by_cases hsingle : block.toNat < 12 + p
  · rw [if_pos (UInt64.lt_iff_toNat_lt.mpr (by omega)), if_pos hsingle]
    simp [toUInt32_toNat (x := b1) (by omega), h1, EXT2_IND_BLOCK, EXT2_NDIR_BLOCKS]
  have h2 : (b1 - ptrs).toNat = block.toNat - 12 - p := by
    rw [UInt64.toNat_sub_of_le _ _ (UInt64.le_iff_toNat_le.mpr (by omega)), h1, hp]
  rw [if_neg (by rw [UInt64.lt_iff_toNat_lt]; omega), if_neg hsingle]
  generalize b1 - ptrs = b2 at h2
  have hmod := fun x : Nat => Nat.mod_lt x hpos
  by_cases hdouble : block.toNat < 12 + p + p * p
  · have hdiv : (block.toNat - 12 - p) / p < p := Nat.div_lt_of_lt_mul (by omega)
    have hm := hmod (block.toNat - 12 - p)
    rw [if_pos (UInt64.lt_iff_toNat_lt.mpr (by omega)), if_pos hdouble]
    have hind : (UInt32.ofNat EXT2_DIND_BLOCK).toNat = 13 := by decide
    simp only [Option.map_some, List.map_cons, List.map_nil, hind,
      toUInt32_toNat (x := b2 >>> ptrBits) (by rw [hshift, h2]; omega),
      toUInt32_toNat (x := b2 &&& (ptrs - 1)) (by rw [hmask, h2]; omega), hshift, hmask, h2]
  have h3 : (b2 - ptrs * ptrs).toNat = block.toNat - 12 - p - p * p := by
    rw [UInt64.toNat_sub_of_le _ _ (UInt64.le_iff_toNat_le.mpr (by omega)), h2, hsq]
  rw [if_neg (by rw [UInt64.lt_iff_toNat_lt]; omega), if_neg hdouble]
  generalize b2 - ptrs * ptrs = b3 at h3
  by_cases htriple : block.toNat < 12 + p + p * p + p * p * p
  · have hdiv : (block.toNat - 12 - p - p * p) / (p * p) < p :=
      Nat.div_lt_of_lt_mul (by omega)
    have hm := hmod (block.toNat - 12 - p - p * p)
    have hm2 := hmod ((block.toNat - 12 - p - p * p) / p)
    rw [if_pos (UInt64.lt_iff_toNat_lt.mpr (by omega)), if_pos htriple]
    have hind : (UInt32.ofNat EXT2_TIND_BLOCK).toNat = 14 := by decide
    simp only [Option.map_some, List.map_cons, List.map_nil, hind,
      toUInt32_toNat (x := b3 >>> (2 * ptrBits)) (by rw [hshift2, h3]; omega),
      toUInt32_toNat (x := (b3 >>> ptrBits) &&& (ptrs - 1)) (by rw [hmask, hshift, h3]; omega),
      toUInt32_toNat (x := b3 &&& (ptrs - 1)) (by rw [hmask, h3]; omega),
      hshift, hshift2, hmask, h3]
  · rw [if_neg (by rw [UInt64.lt_iff_toNat_lt]; omega), if_neg htriple]
    rfl

theorem offsets_eq_some_iff {bs : UInt32} {k : Nat} (hk : k ≤ 6) (hbs : bs.toNat = 2 ^ (10 + k))
    {block : UInt64} {path : List UInt32} : offsets bs block = some path ↔
      blockPath (2 ^ (8 + k)) block.toNat = some (path.map UInt32.toNat) := by
  rw [← offsets_path hk hbs, Option.map_eq_some_iff]
  constructor
  · intro hpath
    exact ⟨path, hpath, rfl⟩
  · rintro ⟨path', hpath, hmap⟩
    rw [hpath, List.map_injective_iff.mpr (fun _ _ => UInt32.toNat_inj.mp) hmap]

end Ext2Fs

/-- The number of blocks below the pointer `h` of the inode: the tree below the pointers 12, 13 and 14
has the height 1, 2 and 3. -/
def subtree (p h : Nat) : Nat := p ^ (h - 11)

section Path

variable {p : Nat}

theorem start_direct {h : Nat} (hh : h ≤ 12) : start (subtree p) h = h := by
  induction h with
  | zero => rfl
  | succ h ih =>
    have hheight : h - 11 = 0 := by omega
    rw [start, ih (by omega), subtree, hheight, Nat.pow_zero]

theorem start_double : start (subtree p) 13 = 12 + p := by
  rw [start, start_direct le_rfl, subtree, Nat.pow_one]

theorem start_triple : start (subtree p) 14 = 12 + p + p * p := by
  rw [start, start_double, subtree, Nat.pow_two]

theorem start_end : start (subtree p) 15 = treeBlocks p := by
  have hcube : p ^ 3 = p * p * p := by rw [Nat.pow_succ, Nat.pow_two]
  rw [start, start_triple, subtree, hcube, treeBlocks]

theorem digits_one (y : Nat) : digits p 1 y = [y] := by
  rw [digits, Nat.pow_zero, Nat.div_one, digits]

theorem digits_two (y : Nat) : digits p 2 y = [y / p, y % p] := by
  rw [digits, Nat.pow_one, digits_one]

theorem digits_three (y : Nat) : digits p 3 y = [y / (p * p), y / p % p, y % p] := by
  rw [digits, Nat.pow_two, digits_two, Nat.mod_mul_right_div_self, Nat.mod_mul_right_mod]

/-- The path of the block `y` below the pointer `h` is `h` and the digits of `y`. -/
theorem blockPath_start {h y : Nat} (hh : h < 15) (hy : y < subtree p h) :
    blockPath p (start (subtree p) h + y) = some (h :: digits p (h - 11) y) := by
  rcases Nat.lt_or_ge h 12 with hdirect | hindirect
  · have hheight : h - 11 = 0 := by omega
    rw [subtree, hheight, Nat.pow_zero] at hy
    have hblock : start (subtree p) h + y = h := by
      rw [start_direct hdirect.le]
      omega
    rw [hblock, blockPath, if_pos hdirect, hheight, digits]
  · obtain rfl | rfl | rfl : h = 12 ∨ h = 13 ∨ h = 14 := by omega
    · rw [subtree, Nat.pow_one] at hy
      rw [start_direct le_rfl, digits_one, blockPath, if_neg (by omega), if_pos (by omega),
        Nat.add_sub_cancel_left]
    · rw [subtree, Nat.pow_two] at hy
      have hoffset : 12 + p + y - 12 - p = y := by omega
      rw [start_double, digits_two, blockPath, if_neg (by omega), if_neg (by omega),
        if_pos (by omega), hoffset]
    · have hend : start (subtree p) 14 + subtree p 14 ≤ start (subtree p) 15 :=
        start_add_le (by decide)
      rw [start_triple, start_end] at hend
      have hoffset : 12 + p + p * p + y - 12 - p - p * p = y := by omega
      rw [start_triple, digits_three, blockPath, if_neg (by omega), if_neg (by omega),
        if_neg (by omega), if_pos (by omega), hoffset]

theorem blockPath_eq_none_iff {block : Nat} : blockPath p block = none ↔ treeBlocks p ≤ block := by
  constructor
  · intro hnone
    by_contra hlt
    rw [← start_end, Nat.not_le] at hlt
    obtain ⟨h, y, hh, hy, rfl⟩ := exists_start hlt
    rw [blockPath_start hh hy] at hnone
    cases hnone
  · intro hle
    have htree : treeBlocks p = 12 + p + p * p + p * p * p := rfl
    rw [blockPath, if_neg (by omega), if_neg (by omega), if_neg (by omega), if_neg (by omega)]

theorem blockPath_lt {block : Nat} {path : List Nat} (h : blockPath p block = some path) :
    block < treeBlocks p := by
  rw [← Nat.not_le, ← blockPath_eq_none_iff, h]
  rintro ⟨⟩

/-- Where a block with a path lies. -/
theorem exists_of_blockPath {block : Nat} {path : List Nat} (h : blockPath p block = some path) :
    ∃ first y, first < 15 ∧ y < subtree p first ∧ block = start (subtree p) first + y ∧
      path = first :: digits p (first - 11) y := by
  have hlt := blockPath_lt h
  rw [← start_end] at hlt
  obtain ⟨first, y, hfirst, hy, rfl⟩ := exists_start hlt
  rw [blockPath_start hfirst hy] at h
  exact ⟨first, y, hfirst, hy, rfl, (Option.some.inj h).symm⟩

/-- The head of the path is one of the pointers of the inode, the rest are table indices. -/
theorem blockPath_eq_some {block : Nat} (hp : 0 < p) (hblock : block < treeBlocks p) :
    ∃ first path, blockPath p block = some (first :: path) ∧ first < EXT2_N_BLOCKS ∧
      ∀ i ∈ path, i < p := by
  rw [← start_end] at hblock
  obtain ⟨first, y, hfirst, hy, rfl⟩ := exists_start hblock
  exact ⟨first, _, blockPath_start hfirst hy, hfirst, fun _ hi => lt_of_mem_digits hp hy hi⟩

end Path

end Rko
