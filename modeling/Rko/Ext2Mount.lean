import Mathlib.Tactic.IntervalCases
import Rko.Ext2Layout

namespace Rko

open CallProgram

structure INodeData where
  dataBlocks : Vector UInt32 EXT2_N_BLOCKS
deriving DecidableEq, Repr

structure SuperBlock where
  ptr : Ptr
  bdev : Ptr
  rdonly : Bool
deriving DecidableEq, Repr

/-- Inode size and first usable inode of a file system with blocks of `blockSize` bytes. -/
structure Ext2Geometry (blockSize : UInt32) where
  inodeSize : UInt16
  firstIno : UInt32
  inodeSize_pow : ∃ j, 7 ≤ j ∧ inodeSize.toNat = 2 ^ j
  inodeSize_le : inodeSize.toNat ≤ blockSize.toNat

/-- Per-superblock data. `fill_super` builds nothing else, so that blocks of `2 ^ 10` up to
`2 ^ 16` bytes and non-zero divisors hold of every mounted file system. -/
structure Ext2Fs where
  blockSize : UInt32
  hasFileType : Bool
  inodesPerBlock : UInt32
  inodesPerGroup : UInt32
  inodeCount : UInt32
  geometry : Ext2Geometry blockSize
  groups : List Ext2Group
  blockSize_pow : ∃ k, k ≤ 6 ∧ blockSize.toNat = 2 ^ (10 + k)
  inodesPerBlock_eq : inodesPerBlock = blockSize / geometry.inodeSize.toUInt32
  inodesPerBlock_ne : inodesPerBlock ≠ 0
  inodesPerGroup_ne : inodesPerGroup ≠ 0

namespace Ext2Fs

def inodeSize (s : Ext2Fs) : UInt16 := s.geometry.inodeSize

def firstIno (s : Ext2Fs) : UInt32 := s.geometry.firstIno

/-- The feature check of `fill_super`; the result is `has_file_type`. -/
def checkFeatures (s : Ext2Super) (rdonly : Bool) : Except Error Bool :=
  if s.revLevel ≥ EXT2_DYNAMIC_REV then
    if s.featureIncompat &&& ~~~EXT2_FEATURE_INCOMPAT_FILETYPE ≠ 0 then .error Error.EINVAL
    else if !rdonly && s.featureRoCompat != 0 then .error Error.EINVAL
    else .ok (s.featureIncompat &&& EXT2_FEATURE_INCOMPAT_FILETYPE != 0)
  else .ok false

def isPowerOfTwo (x : UInt16) : Bool := (List.range 16).any fun j => x.toNat == 2 ^ j

theorem inodeSize_pow_of_checks {sz : UInt16} (hlow : ¬ sz < EXT2_GOOD_OLD_INODE_SIZE)
    (hpow : isPowerOfTwo sz = true) : ∃ j, 7 ≤ j ∧ sz.toNat = 2 ^ j := by
  have hsz : 128 ≤ sz.toNat := by
    rw [UInt16.lt_iff_toNat_lt] at hlow
    simpa [EXT2_GOOD_OLD_INODE_SIZE] using hlow
  obtain ⟨j, _, hj⟩ := List.any_eq_true.mp hpow
  have heq : sz.toNat = 2 ^ j := by simpa using hj
  refine ⟨j, ?_, heq⟩
  have hpow : 2 ^ 7 ≤ 2 ^ j := by omega
  exact (Nat.pow_le_pow_iff_right (by decide)).mp hpow

theorem old_inodeSize_le {blockSize : UInt32} (h : ∃ k, k ≤ 6 ∧ blockSize.toNat = 2 ^ (10 + k)) :
    EXT2_GOOD_OLD_INODE_SIZE.toNat ≤ blockSize.toNat := by
  obtain ⟨k, _, hk⟩ := h
  have : 2 ^ 10 ≤ 2 ^ (10 + k) := Nat.pow_le_pow_right (by decide) (by omega)
  rw [hk]
  simp only [EXT2_GOOD_OLD_INODE_SIZE, UInt16.reduceToNat]
  omega

theorem blockSize_of_bits {s : Ext2Super} (h : ¬ s.logBlockSize > EXT2_MAX_BLOCK_LOG_SIZE - 10) :
    ∃ k, k ≤ 6 ∧ ((1024 : UInt32) <<< s.logBlockSize).toNat = 2 ^ (10 + k) := by
  generalize s.logBlockSize = bits at h ⊢
  have hle : bits.toNat ≤ 6 := by
    simpa [EXT2_MAX_BLOCK_LOG_SIZE, UInt32.lt_iff_toNat_lt] using h
  refine ⟨bits.toNat, hle, ?_⟩
  obtain ⟨n, hn⟩ : ∃ n, bits.toNat = n := ⟨_, rfl⟩
  have hbits : bits = UInt32.ofNat n := by rw [← hn, UInt32.ofNat_toNat]
  rw [hn] at hle ⊢
  subst hbits
  interval_cases n <;> rfl

/-- The choice of `(inode_size, first_ino)` in `fill_super`. -/
def inodeGeometry (s : Ext2Super) (blockSize : UInt32)
    (hblock : ∃ k, k ≤ 6 ∧ blockSize.toNat = 2 ^ (10 + k)) : Except Error (Ext2Geometry blockSize) :=
  if s.revLevel = EXT2_GOOD_OLD_REV then
    .ok ⟨EXT2_GOOD_OLD_INODE_SIZE, EXT2_GOOD_OLD_FIRST_INO, ⟨7, by decide, by decide⟩,
      old_inodeSize_le hblock⟩
  else if hlow : s.inodeSize < EXT2_GOOD_OLD_INODE_SIZE then .error Error.EINVAL
  else if hpow : isPowerOfTwo s.inodeSize = false then .error Error.EINVAL
  else if hle : s.inodeSize.toUInt32 > blockSize then .error Error.EINVAL
  else .ok ⟨s.inodeSize, s.firstIno, inodeSize_pow_of_checks hlow (by simpa using hpow),
    by simpa [UInt32.lt_iff_toNat_lt] using hle⟩

/-- The loop of `fill_super` that reads the group descriptors. -/
def readGroups : Nat → Nat → Int → List Ext2Group → Prog INodeData (List Ext2Group)
  | 0, _, _, groups => pure groups
  | fuel + 1, remain, gdOffset, groups =>
    if remain = 0 then pure groups
    else do
      let b ← mappedFolio gdOffset
      let slice ← Program.ofOption Error.EIO (Ext2Group.fromBytesToSlice b)
      readGroups fuel (remain - slice.length) (gdOffset + b.len) (groups ++ slice.take remain)

/-- `check_descriptors` from group `i` on, out of `n` groups. All sums wrap. -/
def checkDescriptorsFrom (s : Ext2Super) (n : Nat) : Nat → List Ext2Group → Except Error Unit
  | _, [] => .ok ()
  | i, g :: groups =>
    let first := UInt32.ofNat i * s.blocksPerGroup + s.firstDataBlock
    let last := if i = n - 1 then s.blocksCount else first + s.blocksPerGroup - 1
    if g.blockBitmap < first ∨ g.blockBitmap > last then .error Error.EINVAL
    else if g.inodeBitmap < first ∨ g.inodeBitmap > last then .error Error.EINVAL
    else if g.inodeTable < first ∨ g.inodeTable > last then .error Error.EINVAL
    else checkDescriptorsFrom s n (i + 1) groups

def checkDescriptors (s : Ext2Super) (groups : List Ext2Group) : Except Error Unit :=
  checkDescriptorsFrom s groups.length 0 groups

def fillGroups (s : Ext2Super) (blockSize : UInt32) (hasFileType : Bool)
    (hblock : ∃ k, k ≤ 6 ∧ blockSize.toNat = 2 ^ (10 + k)) : Prog INodeData Ext2Fs := do
  let geometry ← Program.ofExcept (inodeGeometry s blockSize hblock)
  let inodesPerBlock := blockSize / geometry.inodeSize.toUInt32
  if hpos : s.inodesPerGroup = 0 ∨ inodesPerBlock = 0 then Program.fail Error.EINVAL
  else if s.blocksPerGroup = 0 then Program.abort
  else
    let groupCount := (s.blocksCount - s.firstDataBlock - 1) / s.blocksPerGroup + 1
    if groupCount ≠ 0 then allocate
    let groups ← readGroups groupCount.toNat groupCount.toNat
      ((SB_OFFSET / blockSize.toNat + 1) * blockSize.toNat) []
    Program.ofExcept (checkDescriptors s groups)
    allocate
    pure
      { blockSize, hasFileType, inodesPerBlock, geometry, groups
        inodesPerGroup := s.inodesPerGroup
        inodeCount := s.inodesCount
        blockSize_pow := hblock
        inodesPerBlock_eq := rfl
        inodesPerBlock_ne := fun h => hpos (Or.inr h)
        inodesPerGroup_ne := fun h => hpos (Or.inl h) }

def fillSuper (sb : SuperBlock) : Prog INodeData Ext2Fs := do
  let minimum : CInt ← Program.ask (KernelCall.sbMinBlocksize 4096)
  if minimum = 0 then Program.fail Error.EINVAL
  else
    let mapped ← mappedFolio SB_OFFSET
    let s ← Program.ofOption Error.EIO (Ext2Super.fromBytes mapped 0)
    if s.magic ≠ EXT2_SUPER_MAGIC then Program.fail Error.EINVAL
    else
      let hasFileType ← Program.ofExcept (checkFeatures s sb.rdonly)
      if hbits : s.logBlockSize > EXT2_MAX_BLOCK_LOG_SIZE - 10 then Program.fail Error.EINVAL
      else
        let blockSize : UInt32 := 1024 <<< s.logBlockSize
        let accepted : CInt ← Program.ask (KernelCall.sbMinBlocksize blockSize.toBitVec)
        if accepted ≠ blockSize.toBitVec then Program.fail Error.ENXIO
        else fillGroups s blockSize hasFileType (blockSize_of_bits hbits)

theorem readGroups_strict (fuel remain : Nat) (gdOffset : Int) (groups : List Ext2Group) :
    FailStrict (readGroups fuel remain gdOffset groups) := by
  induction fuel generalizing remain gdOffset groups with
  | zero => trivial
  | succ fuel ih =>
    unfold readGroups
    split
    next => trivial
    next =>
      apply (mappedFolio_strict _).bind
      intro b
      cases Ext2Group.fromBytesToSlice b with
      | none => trivial
      | some slice => exact ih _ _ _

theorem fillGroups_strict (s : Ext2Super) (blockSize : UInt32) (hasFileType : Bool)
    (hblock : ∃ k, k ≤ 6 ∧ blockSize.toNat = 2 ^ (10 + k)) :
    FailStrict (fillGroups s blockSize hasFileType hblock) := by
  unfold fillGroups
  cases inodeGeometry s blockSize hblock with
  | error e => trivial
  | ok geometry =>
    simp only [Program.ofExcept_ok, Program.bind_eq, Program.done_bind]
    split
    next => trivial
    next =>
      split
      next => trivial
      next =>
        have hrest : ∀ (f : List Ext2Group → Ext2Fs) (n : Nat) (off : Int),
            FailStrict ((readGroups n n off []).bind fun groups =>
              (Program.ofExcept (checkDescriptors s groups)).bind fun _ =>
                (allocate (δ := INodeData)).bind fun _ => pure (f groups)) := by
          intro f n off
          apply (readGroups_strict n n off []).bind
          intro groups
          cases checkDescriptors s groups with
          | error e => trivial
          | ok _ => exact allocate_strict.bind fun _ => trivial
        split
        next => exact allocate_strict.bind fun _ => hrest _ _ _
        next => exact hrest _ _ _

theorem fillSuper_strict (sb : SuperBlock) : FailStrict (fillSuper sb) := by
  apply (ask_strict (by simp)).bind
  intro minimum
  split
  next => trivial
  next =>
    apply (mappedFolio_strict _).bind
    intro mapped
    cases Ext2Super.fromBytes mapped 0 with
    | none => trivial
    | some s =>
      simp only [Program.ofOption_some, Program.bind_eq, Program.done_bind]
      split
      next => trivial
      next =>
        cases checkFeatures s sb.rdonly with
        | error e => trivial
        | ok hasFileType =>
          simp only [Program.ofExcept_ok, Program.done_bind]
          split
          next => trivial
          next =>
            apply (ask_strict (by simp)).bind
            intro accepted
            split
            next => trivial
            next => exact fillGroups_strict _ _ _ _

/-- A device with blocks of 1024 bytes and one block group whose inode table is in block 5;
`rest` is everything from the second page on. -/
def smallDisk (rest : Disk) : Disk
  | 1024 => 128
  | 1028 => 128
  | 1044 => 1
  | 1057 => 32
  | 1064 => 128
  | 1080 => 0x53
  | 1081 => 0xEF
  | 2048 => 3
  | 2052 => 4
  | 2056 => 5
  | offset => if offset < PAGE_SIZE then 0 else rest offset

def smallExt2 : Ext2Fs where
  blockSize := 1024
  hasFileType := false
  inodesPerBlock := 8
  inodesPerGroup := 128
  inodeCount := 128
  geometry := ⟨128, 11, ⟨7, by decide, by decide⟩, by decide⟩
  groups := [⟨3, 4, 5⟩]
  blockSize_pow := ⟨0, by decide, by decide⟩
  inodesPerBlock_eq := by decide
  inodesPerBlock_ne := by decide
  inodesPerGroup_ne := by decide

def diskKernel (disk : Disk) (inodes : UInt64 → LockedInode INodeData) : Kernel INodeData :=
  steadyKernel (fun index => .folio (disk.page index)) inodes 256 0 true

theorem diskKernel_reads (disk : Disk) (inodes : UInt64 → LockedInode INodeData) :
    ReadsDisk (diskKernel disk inodes) disk := fun _ _ => rfl

end Ext2Fs

end Rko
