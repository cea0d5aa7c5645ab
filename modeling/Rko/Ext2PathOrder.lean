import Rko.Ext2BlockPath

namespace Rko

open Positional

/-- The paths of indices through the tree of pointers, where a table has `p` entries. -/
inductive ValidPath (p : Nat) : List UInt32 → Prop
  | direct {i : UInt32} (hi : i.toNat < 12) : ValidPath p [i]
  | single {a : UInt32} (ha : a.toNat < p) : ValidPath p [12, a]
  | double {a b : UInt32} (ha : a.toNat < p) (hb : b.toNat < p) : ValidPath p [13, a, b]
  | triple {a b c : UInt32} (ha : a.toNat < p) (hb : b.toNat < p) (hc : c.toNat < p) :
      ValidPath p [14, a, b, c]

section Path

variable {p : Nat}

/-- Blocks are ordered as their paths are, lexicographically: the first index tells the level. -/
theorem blockPath_lt_iff (hp : 0 < p) {a b : Nat} {pa pb : List Nat} (ha : blockPath p a = some pa)
    (hb : blockPath p b = some pb) : a < b ↔ pa < pb := by
  obtain ⟨h, y, -, hy, rfl, rfl⟩ := exists_of_blockPath ha
  obtain ⟨h', y', -, hy', rfl, rfl⟩ := exists_of_blockPath hb
  rw [start_lt_iff hy hy', List.cons_lt_cons_iff]
  apply or_congr_right
  apply and_congr_right
  rintro rfl
  exact (digits_lt_iff hp hy hy').symm

/-- A first index, and as many table indices as the tree below it is high. -/
theorem validPath_iff {path : List UInt32} : ValidPath p path ↔
    ∃ first ds, path.map UInt32.toNat = first :: ds ∧ first < 15 ∧ ds.length = first - 11 ∧
      ∀ d ∈ ds, d < p := by
  constructor
  · intro hvalid
    cases hvalid with
    | @direct i hi =>
      refine ⟨i.toNat, [], rfl, by omega, ?_, by simp⟩
      show 0 = i.toNat - 11
      omega
    | @single a ha => exact ⟨12, [a.toNat], rfl, by decide, rfl, by simp [ha]⟩
    | @double a b ha hb => exact ⟨13, [a.toNat, b.toNat], rfl, by decide, rfl, by simp [ha, hb]⟩
    | @triple a b c ha hb hc =>
      exact ⟨14, [a.toNat, b.toNat, c.toNat], rfl, by decide, rfl, by simp [ha, hb, hc]⟩
  · rintro ⟨first, ds, hmap, hfirst, hlength, hds⟩
    obtain ⟨i, rest, rfl, rfl, rfl⟩ := List.map_eq_cons_iff.mp hmap
    rw [List.length_map] at hlength
    simp only [List.mem_map, forall_exists_index, and_imp, forall_apply_eq_imp_iff₂] at hds
    rcases Nat.lt_or_ge i.toNat 12 with hdirect | hindirect
    · have hnil : rest = [] := List.length_eq_zero_iff.mp (by omega)
      rw [hnil]
      exact .direct hdirect
    · obtain h12 | h13 | h14 : i.toNat = 12 ∨ i.toNat = 13 ∨ i.toNat = 14 := by omega
      · obtain rfl : i = 12 := UInt32.toNat_inj.mp h12
        obtain ⟨a, rfl⟩ := List.length_eq_one_iff.mp hlength
        exact .single (hds a (by simp))
      · obtain rfl : i = 13 := UInt32.toNat_inj.mp h13
        obtain ⟨a, b, rfl⟩ := List.length_eq_two.mp hlength
        exact .double (hds a (by simp)) (hds b (by simp))
      · obtain rfl : i = 14 := UInt32.toNat_inj.mp h14
        obtain ⟨a, b, c, rfl⟩ := List.length_eq_three.mp hlength
        exact .triple (hds a (by simp)) (hds b (by simp)) (hds c (by simp))

theorem validPath_of_blockPath (hp : 0 < p) {block : Nat} {path : List UInt32}
    (h : blockPath p block = some (path.map UInt32.toNat)) : ValidPath p path := by
  obtain ⟨first, y, hfirst, hy, -, hpath⟩ := exists_of_blockPath h
  exact validPath_iff.mpr
    ⟨first, _, hpath, hfirst, digits_length, fun _ hd => lt_of_mem_digits hp hy hd⟩

theorem exists_block_of_validPath {path : List UInt32} (h : ValidPath p path) :
    ∃ block < treeBlocks p, blockPath p block = some (path.map UInt32.toNat) := by
  obtain ⟨first, ds, hmap, hfirst, hlength, hds⟩ := validPath_iff.mp h
  obtain ⟨y, hy, hdigits⟩ := exists_digits hds
  rw [hlength] at hy hdigits
  refine ⟨start (subtree p) first + y, ?_, ?_⟩
  · have hend : start (subtree p) first + subtree p first ≤ start (subtree p) 15 :=
      start_add_le hfirst
    have hsub : subtree p first = p ^ (first - 11) := rfl
    rw [start_end] at hend
    omega
  · rw [blockPath_start hfirst hy, hdigits, hmap]

end Path

theorem map_toNat_lt_iff (xs ys : List UInt32) :
    xs.map UInt32.toNat < ys.map UInt32.toNat ↔ xs < ys := by
  induction xs generalizing ys with
  | nil => cases ys <;> simp
  | cons x xs ih =>
    cases ys with
    | nil => simp
    | cons y ys =>
      rw [List.map_cons, List.map_cons, List.cons_lt_cons_iff, List.cons_lt_cons_iff, ih,
        UInt32.lt_iff_toNat_lt, UInt32.toNat_inj]

namespace Ext2Fs

/-! The computation of `offsets` with every operation checked for overflow. -/

namespace Checked

def sub (a b : UInt64) : Option UInt64 := if b ≤ a then some (a - b) else none

def mul (a b : UInt64) : Option UInt64 := if a.toNat * b.toNat < 2 ^ 64 then some (a * b) else none

def shl (a n : UInt64) : Option UInt64 :=
  if n < 64 ∧ a.toNat * 2 ^ n.toNat < 2 ^ 64 then some (a <<< n) else none

def shr (a n : UInt64) : Option UInt64 := if n < 64 then some (a >>> n) else none

def toU32 (a : UInt64) : Option UInt32 := if a.toNat < 2 ^ 32 then some a.toUInt32 else none

/-- `Ext2Fs::offsets`; `none` is an overflow, or a number that a cast cuts off. -/
def offsets (blockSize : UInt32) (block : UInt64) : Option (Option (List UInt32)) := do
  let ptrs := (blockSize / 4).toUInt64
  let ptrMask ← sub ptrs 1
  let ptrBits := UInt64.ofNat (trailingZeros ptrs)
  if block < UInt64.ofNat EXT2_NDIR_BLOCKS then
    let i ← toU32 block
    pure (some [i])
  else
    let block ← sub block (UInt64.ofNat EXT2_NDIR_BLOCKS)
    if block < ptrs then
      let a ← toU32 block
      pure (some [UInt32.ofNat EXT2_IND_BLOCK, a])
    else
      let block ← sub block ptrs
      let twice ← mul 2 ptrBits
      let square ← shl 1 twice
      if block < square then
        let a ← (shr block ptrBits).bind toU32
        let b ← toU32 (block &&& ptrMask)
        pure (some [UInt32.ofNat EXT2_DIND_BLOCK, a, b])
      else
        let square ← mul ptrs ptrs
        let block ← sub block square
        let cube ← mul square ptrs
        if block < cube then
          let a ← (shr block twice).bind toU32
          let high ← shr block ptrBits
          let b ← toU32 (high &&& ptrMask)
          let c ← toU32 (block &&& ptrMask)
          pure (some [UInt32.ofNat EXT2_TIND_BLOCK, a, b, c])
        else pure none

section

variable {a b n : UInt64}

theorem sub_eq (h : b.toNat ≤ a.toNat) : sub a b = some (a - b) :=
  if_pos (UInt64.le_iff_toNat_le.mpr h)

theorem mul_eq (h : a.toNat * b.toNat < 2 ^ 64) : mul a b = some (a * b) := if_pos h

theorem one_shl_eq (h : n.toNat < 64) : shl 1 n = some (1 <<< n) := by
  refine if_pos ⟨UInt64.lt_iff_toNat_lt.mpr h, ?_⟩
  show 1 * 2 ^ n.toNat < 2 ^ 64
  rw [Nat.one_mul]
  exact Nat.pow_lt_pow_right (by decide) h

theorem shr_eq (h : n.toNat < 64) : shr a n = some (a >>> n) := if_pos (UInt64.lt_iff_toNat_lt.mpr h)

theorem toU32_eq (h : a.toNat < 2 ^ 32) : toU32 a = some a.toUInt32 := if_pos h

theorem toNat_two_mul (h : n.toNat ≤ 14) : (2 * n).toNat = 2 * n.toNat := by
  have htwo : (2 : UInt64).toNat = 2 := rfl
  rw [UInt64.toNat_mul, htwo, Nat.mod_eq_of_lt (by omega)]

end

/-- No operation of `offsets` overflows, and no cast loses a bit. -/
theorem offsets_eq {bs : UInt32} {k : Nat} (hk : k ≤ 6) (hbs : bs.toNat = 2 ^ (10 + k))
    (block : UInt64) : offsets bs block = some (Ext2Fs.offsets bs block) := by
  have hw := tableWidth_of_pow hk hbs
  unfold offsets Ext2Fs.offsets
  dsimp only
  generalize UInt64.ofNat (trailingZeros (bs / 4).toUInt64) = ptrBits at hw
  generalize (bs / 4).toUInt64 = ptrs at hw
  generalize 2 ^ (8 + k) = p at hw
  have hsq := hw.square
  have hcube := hw.cube
  obtain ⟨hp, hpos, hand, hshift, hshift2, hsquare, hbits, hb1, hb2, hb3⟩ := hw
  have htwice := toNat_two_mul hbits
  have hlow : ∀ x, toU32 (x &&& (ptrs - 1)) = some (x &&& (ptrs - 1)).toUInt32 := by
    intro x
    have hmod := Nat.mod_lt x.toNat hpos
    exact toU32_eq (by rw [hand]; omega)
  have h12 : (UInt64.ofNat EXT2_NDIR_BLOCKS).toNat = 12 := by decide
  have hone : (1 : UInt64).toNat = 1 := rfl
  have htwo : (2 : UInt64).toNat = 2 := rfl
  rw [sub_eq (by omega)]
  simp only [Option.bind_eq_bind, Option.bind_some]
  by_cases hdirect : block < UInt64.ofNat EXT2_NDIR_BLOCKS
  · rw [if_pos hdirect, if_pos hdirect]
    rw [UInt64.lt_iff_toNat_lt, h12] at hdirect
    rw [toU32_eq (by omega)]
    rfl
  rw [if_neg hdirect, if_neg hdirect]
  rw [UInt64.lt_iff_toNat_lt, h12] at hdirect
  rw [sub_eq (by omega), Option.bind_some]
  generalize block - UInt64.ofNat EXT2_NDIR_BLOCKS = b1
  by_cases hsingle : b1 < ptrs
  · rw [if_pos hsingle, if_pos hsingle]
    rw [UInt64.lt_iff_toNat_lt] at hsingle
    rw [toU32_eq (by omega)]
    rfl
  rw [if_neg hsingle, if_neg hsingle]
  rw [UInt64.lt_iff_toNat_lt] at hsingle
  rw [sub_eq (by omega), mul_eq (by rw [htwo]; omega)]
  simp only [Option.bind_some]
  rw [one_shl_eq (by omega), Option.bind_some]
  generalize b1 - ptrs = b2
  by_cases hdouble : b2 < 1 <<< (2 * ptrBits)
  · rw [if_pos hdouble, if_pos hdouble]
    rw [UInt64.lt_iff_toNat_lt, hsquare] at hdouble
    have hdiv : b2.toNat / p < p := Nat.div_lt_of_lt_mul hdouble
    rw [shr_eq (by omega), Option.bind_some, toU32_eq (by rw [hshift]; omega), hlow]
    rfl
  rw [if_neg hdouble, if_neg hdouble]
  rw [UInt64.lt_iff_toNat_lt, hsquare] at hdouble
  rw [mul_eq (by rw [hp]; omega), Option.bind_some, sub_eq (by omega), Option.bind_some,
    mul_eq (by rw [hsq, hp]; omega), Option.bind_some]
  generalize b2 - ptrs * ptrs = b3
  by_cases htriple : b3 < ptrs * ptrs * ptrs
  · rw [if_pos htriple, if_pos htriple]
    rw [UInt64.lt_iff_toNat_lt, hcube] at htriple
    have hdiv : b3.toNat / (p * p) < p := Nat.div_lt_of_lt_mul htriple
    rw [shr_eq (by omega), Option.bind_some, toU32_eq (by rw [hshift2]; omega), shr_eq (by omega),
      hlow]
    simp only [Option.bind_some]
    rw [hlow]
    rfl
  rw [if_neg htriple, if_neg htriple]
  rfl

end Checked

/-- `offsets` numbers the paths through the tree of pointers one-to-one and in lexicographic order,
and has no path for the numbers after the last; nothing overflows on the way. -/
theorem offsets_bijection {bs : UInt32} {k p : Nat} (hk : k ≤ 6) (hbs : bs.toNat = 2 ^ (10 + k))
    (hptrs : p = bs.toNat / 4) :
    (∀ block, offsets bs block = none ↔ 12 + p + p ^ 2 + p ^ 3 ≤ block.toNat) ∧
    (∀ path, ValidPath p path ↔ ∃ block, offsets bs block = some path) ∧
    (∀ a b path, offsets bs a = some path → offsets bs b = some path → a = b) ∧
    (∀ a b pa pb, offsets bs a = some pa → offsets bs b = some pb → (a < b ↔ pa < pb)) ∧
    ∀ block, Checked.offsets bs block = some (offsets bs block) := by
  have hp : p = 2 ^ (8 + k) := hptrs.trans (div_four_of_pow hbs)
  have hpos : 0 < p := by
    rw [hp]
    exact Nat.two_pow_pos _
  have htotal : 12 + p + p ^ 2 + p ^ 3 = treeBlocks p := by
    rw [treeBlocks, Nat.pow_succ p 2, Nat.pow_two]
  have hsome : ∀ block path, offsets bs block = some path ↔
      blockPath p block.toNat = some (path.map UInt32.toNat) := by
    intro block path
    rw [hp]
    exact offsets_eq_some_iff hk hbs
  have horder : ∀ a b pa pb, offsets bs a = some pa → offsets bs b = some pb → (a < b ↔ pa < pb) := by
    intro a b pa pb ha hb
    rw [hsome] at ha hb
    rw [UInt64.lt_iff_toNat_lt, blockPath_lt_iff hpos ha hb, map_toNat_lt_iff]
  refine ⟨?_, ?_, ?_, horder, Checked.offsets_eq hk hbs⟩
  · intro block
    rw [htotal, ← blockPath_eq_none_iff, hp, ← offsets_path hk hbs, Option.map_eq_none_iff]
  · intro path
    constructor
    · intro hvalid
      obtain ⟨block, hlt, hblock⟩ := exists_block_of_validPath hvalid
      have hbound : treeBlocks p < 2 ^ 64 := by
        obtain ⟨hb1, hb2, hb3⟩ := ptrs_bounds hk
        rw [hp, treeBlocks]
        omega
      refine ⟨UInt64.ofNat block, (hsome _ _).mpr ?_⟩
      rw [UInt64.toNat_ofNat_of_lt' (by show block < 2 ^ 64; omega)]
      exact hblock
    · rintro ⟨block, hblock⟩
      exact validPath_of_blockPath hpos ((hsome _ _).mp hblock)
  · intro a b path ha hb
    have hnot : ∀ a b, offsets bs a = some path → offsets bs b = some path → ¬ a < b :=
      fun a b ha hb hlt => List.lt_irrefl path ((horder a b path path ha hb).mp hlt)
    exact UInt64.le_antisymm (UInt64.not_lt.mp (hnot b a hb ha)) (UInt64.not_lt.mp (hnot a b ha hb))

/-- The last block of a tree of blocks of 1 KiB. -/
theorem offsets_bijection_1k :
    (∃ block, offsets 1024 block = some [14, 255, 255, 255]) ∧ offsets 1024 16843020 = none := by
  obtain ⟨hnone, hvalid, -⟩ := @offsets_bijection 1024 0 256 (by decide) (by decide) (by decide)
  exact ⟨(hvalid _).mp (.triple (by decide) (by decide) (by decide)), (hnone _).mpr (by decide)⟩

end Ext2Fs

end Rko
