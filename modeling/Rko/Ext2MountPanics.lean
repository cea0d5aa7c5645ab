import Rko.Ext2Panics

namespace Rko

open CallProgram

namespace Ext2Fs.Panicking

/-- The variables of the loop of `fill_super` over the group descriptors. -/
structure GroupScan where
  remain : UInt32
  gdOffset : Offset
  groups : List Ext2Group

/-- The inner loop, over the descriptors of a page. -/
def pushGroups : List Ext2Group → UInt32 → List Ext2Group → UInt32 × List Ext2Group
  | [], remain, groups => (remain, groups)
  | g :: slice, remain, groups =>
    if remain - 1 = 0 then (0, groups ++ [g]) else pushGroups slice (remain - 1) (groups ++ [g])

def groupsRound (x : GroupScan) : Prog INodeData (GroupScan ⊕ List Ext2Group) :=
  if 0 < x.remain then do
    let b ← mappedFolio x.gdOffset.val
    let slice ← Program.ofOption Error.EIO (Ext2Group.fromBytesToSlice b)
    let (remain, groups) := pushGroups slice x.remain x.groups
    pure (.inl ⟨remain, Offset.wrap (x.gdOffset.val + b.len), groups⟩)
  else pure (.inr x.groups)

section Checked

variable {s : Ext2Super} {inodesPerBlock : UInt32}

theorem inodesPerBlock_ne_of_passed (hpos : ¬ (s.inodesPerGroup = 0 ∨ inodesPerBlock = 0)) :
    inodesPerBlock ≠ 0 := (not_or.mp hpos).2

theorem inodesPerGroup_ne_of_passed (hpos : ¬ (s.inodesPerGroup = 0 ∨ inodesPerBlock = 0)) :
    s.inodesPerGroup ≠ 0 := (not_or.mp hpos).1

end Checked

def fillGroups (s : Ext2Super) (blockSize : UInt32) (hasFileType : Bool)
    (hblock : ∃ k, k ≤ 6 ∧ blockSize.toNat = 2 ^ (10 + k)) : Prog INodeData Ext2Fs := do
  let geometry ← Program.ofExcept (inodeGeometry s blockSize hblock)
  Program.require (geometry.inodeSize.toUInt32 ≠ 0)
  let inodesPerBlock := blockSize / geometry.inodeSize.toUInt32
  if hpos : s.inodesPerGroup = 0 ∨ inodesPerBlock = 0 then Program.fail Error.EINVAL
  else do
    Program.require (s.blocksPerGroup ≠ 0)
    let groupCount := (s.blocksCount - s.firstDataBlock - 1) / s.blocksPerGroup + 1
    if groupCount ≠ 0 then allocate
    Program.require (blockSize ≠ 0)
    let groups ← Program.loop groupsRound (groupCount.toNat + 1)
      ⟨groupCount, Offset.wrap ((SB_OFFSET / blockSize.toNat + 1) * blockSize.toNat), []⟩
    Program.ofExcept (checkDescriptors s groups)
    allocate
    pure
      { blockSize, hasFileType, inodesPerBlock, geometry, groups
        inodesPerGroup := s.inodesPerGroup
        inodeCount := s.inodesCount
        blockSize_pow := hblock
        inodesPerBlock_eq := Eq.refl inodesPerBlock
        inodesPerBlock_ne := inodesPerBlock_ne_of_passed hpos
        inodesPerGroup_ne := inodesPerGroup_ne_of_passed hpos }

/-- The superblock, as far as the device lets it be read. -/
def readSuper : Prog INodeData Ext2Super := do
  let minimum : CInt ← Program.ask (KernelCall.sbMinBlocksize 4096)
  if minimum = 0 then Program.fail Error.EINVAL
  else
    let mapped ← mappedFolio SB_OFFSET
    Program.ofOption Error.EIO (Ext2Super.fromBytes mapped 0)

/-- The rest of `fill_super`, from the check of the magic number on. -/
def mountSuper (sb : SuperBlock) (s : Ext2Super) : Prog INodeData Ext2Fs :=
  if s.magic ≠ EXT2_SUPER_MAGIC then Program.fail Error.EINVAL
  else do
    let hasFileType ← Program.ofExcept (checkFeatures s sb.rdonly)
    if hbits : s.logBlockSize > EXT2_MAX_BLOCK_LOG_SIZE - 10 then Program.fail Error.EINVAL
    else do
      Program.require (s.logBlockSize < 32)
      let blockSize : UInt32 := 1024 <<< s.logBlockSize
      let accepted : CInt ← Program.ask (KernelCall.sbMinBlocksize blockSize.toBitVec)
      if accepted ≠ blockSize.toBitVec then Program.fail Error.ENXIO
      else fillGroups s blockSize hasFileType (blockSize_of_bits hbits)

/-- `fill_super`, which can divide by zero, shift too far or read descriptors for ever. -/
def fillSuper (sb : SuperBlock) : Prog INodeData Ext2Fs := do
  let s ← readSuper
  mountSuper sb s

theorem pushGroups_eq (slice : List Ext2Group) {remain : UInt32} (hremain : 0 < remain)
    (groups : List Ext2Group) :
    ((pushGroups slice remain groups).1.toNat, (pushGroups slice remain groups).2) =
      (remain.toNat - slice.length, groups ++ slice.take remain.toNat) := by
  induction slice generalizing remain groups with
  | nil => simp [pushGroups]
  | cons g slice ih =>
    have hpos : 0 < remain.toNat := UInt32.lt_iff_toNat_lt.mp hremain
    have hpred : (remain - 1).toNat = remain.toNat - 1 :=
      UInt32.toNat_sub_of_le _ _ (UInt32.le_iff_toNat_le.mpr hpos)
    obtain ⟨n, hn⟩ : ∃ n, remain.toNat = n + 1 := ⟨remain.toNat - 1, by omega⟩
    rw [pushGroups]
    split
    next hzero =>
      have hn0 : n = 0 := by
        rw [hzero] at hpred
        have : (0 : UInt32).toNat = 0 := rfl
        omega
      simp [hn, hn0]
    next hne =>
      have hpos' : 0 < remain - 1 := UInt32.pos_iff_ne_zero.mpr hne
      rw [ih hpos', hpred, hn]
      simp only [Nat.add_sub_cancel, List.take_succ_cons, List.length_cons, List.append_assoc,
        List.singleton_append]
      congr 1
      omega

theorem length_fromBytesToSlice {b : Slice} {slice : List Ext2Group}
    (h : Ext2Group.fromBytesToSlice b = some slice) : slice.length = b.len / 32 := by
  obtain ⟨records, hrecords, rfl⟩ := Option.map_eq_some_iff.mp h
  rw [List.length_map, Slice.length_of_fromBytesToSlice hrecords]

/-- Between the rounds the next page to read starts on a block, far from the end of the range. -/
structure GroupScan.OnBlock (x : GroupScan) : Prop where
  aligned : x.gdOffset.val % 1024 = 0
  nonneg : 0 ≤ x.gdOffset.val
  bound : x.gdOffset.val + PAGE_SIZE * x.remain.toNat ≤ 2 ^ 50

section Groups

variable {x : GroupScan}

/-- What is mapped from such a place on holds a descriptor at least. -/
theorem GroupScan.OnBlock.mapped (hx : x.OnBlock) {b : Slice}
    (hb : b.base = x.gdOffset.val.toNat % PAGE_SIZE ∧
      b.len = PAGE_SIZE - x.gdOffset.val.toNat % PAGE_SIZE) :
    1024 ≤ b.len ∧ b.len ≤ PAGE_SIZE ∧ b.len % 1024 = 0 := by
  obtain ⟨haligned, hnonneg, -⟩ := hx
  have hpage : PAGE_SIZE = 4096 := rfl
  rw [hb.2, hpage]
  omega

theorem GroupScan.OnBlock.next (hx : x.OnBlock) (hremain : 0 < x.remain) {b : Slice}
    (hb : b.base = x.gdOffset.val.toNat % PAGE_SIZE ∧
      b.len = PAGE_SIZE - x.gdOffset.val.toNat % PAGE_SIZE)
    {slice : List Ext2Group} (hslice : Ext2Group.fromBytesToSlice b = some slice) :
    let next := pushGroups slice x.remain x.groups
    GroupScan.OnBlock ⟨next.1, Offset.wrap (x.gdOffset.val + b.len), next.2⟩ ∧
      next.1.toNat < x.remain.toNat ∧ (Offset.wrap (x.gdOffset.val + b.len)).val =
        x.gdOffset.val + b.len := by
  obtain ⟨hlow, hhigh, hmod⟩ := hx.mapped hb
  obtain ⟨haligned, hnonneg, hbound⟩ := hx
  have hlength := length_fromBytesToSlice hslice
  have hpushed := congrArg Prod.fst (pushGroups_eq slice hremain x.groups)
  have hpos : 0 < x.remain.toNat := UInt32.lt_iff_toNat_lt.mp hremain
  have hpage : PAGE_SIZE = 4096 := rfl
  simp only at hpushed
  rw [hpage] at hbound hhigh
  have hwrap : (Offset.wrap (x.gdOffset.val + b.len)).val = x.gdOffset.val + b.len :=
    Offset.wrap_val (by omega) (by omega)
  refine ⟨⟨?_, ?_, ?_⟩, by omega, hwrap⟩
  · show (Offset.wrap (x.gdOffset.val + b.len)).val % 1024 = 0
    rw [hwrap]
    omega
  · show 0 ≤ (Offset.wrap (x.gdOffset.val + b.len)).val
    rw [hwrap]
    omega
  · show (Offset.wrap (x.gdOffset.val + b.len)).val + PAGE_SIZE * _ ≤ 2 ^ 50
    rw [hwrap, hpage, hpushed]
    omega

theorem groupsRound_ensures (hx : x.OnBlock) :
    (groupsRound x).Ensures (Sum.elim
      (fun x' => x'.OnBlock ∧ x'.remain.toNat < x.remain.toNat) fun _ => True) := by
  unfold groupsRound
  split
  next hremain =>
    apply (mappedFolio_ensures _).bind
    intro b hb
    apply (Program.ensures_ofOption _ fun _ h => h).bind
    intro slice hslice
    obtain ⟨hnext, hless, -⟩ := hx.next hremain hb hslice
    exact ⟨hnext, hless⟩
  next => trivial

theorem readGroups_succ (hx : x.OnBlock) (n : Nat) :
    readGroups (n + 1) x.remain.toNat x.gdOffset.val x.groups =
      (groupsRound x).bind (Sum.elim
        (fun x' => readGroups n x'.remain.toNat x'.gdOffset.val x'.groups) Program.done) := by
  unfold groupsRound
  rw [readGroups]
  by_cases hremain : 0 < x.remain
  · have hpos : 0 < x.remain.toNat := UInt32.lt_iff_toNat_lt.mp hremain
    rw [if_pos hremain, if_neg (by omega)]
    simp only [Program.bind_eq, Program.bind_assoc]
    apply (mappedFolio_ensures _).bind_congr
    intro b hb
    cases hslice : Ext2Group.fromBytesToSlice b with
    | none => rfl
    | some slice =>
      obtain ⟨-, -, hwrap⟩ := hx.next hremain hb hslice
      have hpushed := pushGroups_eq slice hremain x.groups
      rw [Prod.mk.injEq] at hpushed
      simp only [Program.ofOption_some, Program.done_bind, Program.pure_eq, Sum.elim_inl, hwrap,
        hpushed.1, hpushed.2]
  · have hzero : x.remain = 0 := by
      by_contra hne
      exact hremain (UInt32.pos_iff_ne_zero.mpr hne)
    rw [if_neg hremain, hzero]
    rfl

/-- The descriptors are read in at most as many rounds as there are groups. -/
theorem readGroups_fuel (hx : x.OnBlock) {n : Nat} (hn : x.remain.toNat ≤ n) :
    readGroups (n + 1) x.remain.toNat x.gdOffset.val x.groups =
      readGroups n x.remain.toNat x.gdOffset.val x.groups := by
  induction n generalizing x with
  | zero =>
    have hzero : x.remain.toNat = 0 := Nat.le_zero.mp hn
    rw [readGroups, readGroups, if_pos hzero]
  | succ n ih =>
    rw [readGroups_succ hx (n + 1), readGroups_succ hx n]
    apply (groupsRound_ensures hx).bind_congr
    intro r hr
    cases r with
    | inl x' => exact ih hr.1 (by have := hr.2; omega)
    | inr groups => rfl

theorem loop_groupsRound (hx : x.OnBlock) :
    Program.loop groupsRound (x.remain.toNat + 1) x =
      readGroups x.remain.toNat x.remain.toNat x.gdOffset.val x.groups := by
  have hloop : Program.loop groupsRound (x.remain.toNat + 1) x =
      readGroups (x.remain.toNat + 1) x.remain.toNat x.gdOffset.val x.groups :=
    Program.loop_eq (f := fun n (x : GroupScan) => readGroups n x.remain.toNat x.gdOffset.val x.groups)
      (I := GroupScan.OnBlock) (m := fun x => x.remain.toNat)
      (fun n _ hx => readGroups_succ hx n) (fun _ hx => groupsRound_ensures hx) hx
      (Nat.lt_succ_self _)
  rw [hloop, readGroups_fuel hx le_rfl]

end Groups

section Super

variable {s : Ext2Super} {blockSize : UInt32}

theorem firstGroup_onBlock (hblock : ∃ k, k ≤ 6 ∧ blockSize.toNat = 2 ^ (10 + k))
    (groupCount : UInt32) :
    GroupScan.OnBlock
        ⟨groupCount, Offset.wrap ((SB_OFFSET / blockSize.toNat + 1) * blockSize.toNat), []⟩ ∧
      (Offset.wrap ((SB_OFFSET / blockSize.toNat + 1) * blockSize.toNat)).val =
        (SB_OFFSET / blockSize.toNat + 1) * blockSize.toNat := by
  obtain ⟨k, hk, hbs⟩ := hblock
  have hoffset : ((SB_OFFSET / blockSize.toNat + 1) * blockSize.toNat) % 1024 = 0 ∧
      0 ≤ (SB_OFFSET / blockSize.toNat + 1) * (blockSize.toNat : Int) ∧
      (SB_OFFSET / blockSize.toNat + 1) * (blockSize.toNat : Int) ≤ 2 ^ 17 := by
    rw [hbs]
    interval_cases k <;> decide
  obtain ⟨haligned, hnonneg, hle⟩ := hoffset
  have hcount : groupCount.toNat < 2 ^ 32 := groupCount.toNat_lt
  have hpage : PAGE_SIZE = 4096 := rfl
  have hwrap := Offset.wrap_val (x := (SB_OFFSET / blockSize.toNat + 1) * blockSize.toNat)
    (by omega) (by omega)
  refine ⟨⟨?_, ?_, ?_⟩, hwrap⟩
  · rw [hwrap]
    exact haligned
  · rw [hwrap]
    exact hnonneg
  · show _ + (PAGE_SIZE : Int) * groupCount.toNat ≤ 2 ^ 50
    rw [hwrap, hpage]
    omega

theorem inodeSize_ne {blockSize : UInt32} (geometry : Ext2Geometry blockSize) :
    geometry.inodeSize.toUInt32 ≠ 0 := by
  obtain ⟨j, -, hj⟩ := geometry.inodeSize_pow
  intro hzero
  have hnat := congrArg UInt32.toNat hzero
  rw [UInt16.toNat_toUInt32, hj] at hnat
  exact absurd hnat (Nat.two_pow_pos j).ne'

theorem inodesPerBlock_ne {blockSize : UInt32} (geometry : Ext2Geometry blockSize) :
    blockSize / geometry.inodeSize.toUInt32 ≠ 0 := by
  obtain ⟨j, -, hj⟩ := geometry.inodeSize_pow
  have hle := geometry.inodeSize_le
  have hpos : 0 < geometry.inodeSize.toNat := hj ▸ Nat.two_pow_pos j
  intro hzero
  have hnat := congrArg UInt32.toNat hzero
  rw [UInt32.toNat_div, UInt16.toNat_toUInt32] at hnat
  have hdiv := Nat.div_pos hle hpos
  have hz : (0 : UInt32).toNat = 0 := rfl
  omega

theorem pow_ne_zero (hblock : ∃ k, k ≤ 6 ∧ blockSize.toNat = 2 ^ (10 + k)) : blockSize ≠ 0 := by
  rintro rfl
  obtain ⟨k, -, hk⟩ := hblock
  exact absurd hk.symm (Nat.two_pow_pos _).ne'

theorem fillGroups_eq (s : Ext2Super) (hasFileType : Bool)
    (hblock : ∃ k, k ≤ 6 ∧ blockSize.toNat = 2 ^ (10 + k)) :
    fillGroups s blockSize hasFileType hblock = Ext2Fs.fillGroups s blockSize hasFileType hblock := by
  unfold fillGroups Ext2Fs.fillGroups
  simp only [Program.bind_eq]
  congr 1
  funext geometry
  rw [Program.require_eq (inodeSize_ne geometry), Program.done_bind]
  split
  next => rfl
  next =>
    by_cases hzero : s.blocksPerGroup = 0
    · rw [if_pos hzero, Program.require, if_neg (not_not.mpr hzero)]
      rfl
    · obtain ⟨hfirst, hwrap⟩ := firstGroup_onBlock hblock
        ((s.blocksCount - s.firstDataBlock - 1) / s.blocksPerGroup + 1)
      rw [if_neg hzero, Program.require_eq hzero, Program.done_bind]
      simp only [Program.require_eq (pow_ne_zero hblock), Program.done_bind, loop_groupsRound hfirst,
        hwrap]

theorem shift_lt (hbits : ¬ s.logBlockSize > EXT2_MAX_BLOCK_LOG_SIZE - 10) : s.logBlockSize < 32 :=
  UInt32.lt_of_le_of_lt (UInt32.not_lt.mp hbits) (by decide)

theorem fillSuper_eq (sb : SuperBlock) : fillSuper sb = Ext2Fs.fillSuper sb := by
  unfold fillSuper readSuper mountSuper Ext2Fs.fillSuper
  simp only [Program.bind_eq, Program.ask_bind, Program.call_bind]
  congr 1
  funext minimum
  split
  next => rfl
  next =>
    rw [Program.bind_assoc]
    congr 1
    funext mapped
    congr 1
    funext s
    split
    next => rfl
    next =>
      congr 1
      funext hasFileType
      split
      next => rfl
      next hbits =>
        rw [Program.require_eq (shift_lt hbits), Program.done_bind]
        congr 1
        funext accepted
        split
        next => rfl
        next => exact fillGroups_eq s hasFileType _

end Super

/-- The superblocks that pass every check of `fill_super` before the groups are counted. -/
structure Admitted (s : Ext2Super) (rdonly : Bool) : Prop where
  magic : s.magic = EXT2_SUPER_MAGIC
  features : ∃ hasFileType, checkFeatures s rdonly = .ok hasFileType
  bits : ¬ s.logBlockSize > EXT2_MAX_BLOCK_LOG_SIZE - 10
  geometry : ∃ g, inodeGeometry s (1024 <<< s.logBlockSize) (blockSize_of_bits bits) = .ok g
  inodes : s.inodesPerGroup ≠ 0

/-- Nothing is checked of `blocks_per_group`. -/
theorem fillGroups_ensures {s : Ext2Super} {blockSize : UInt32} (hasFileType : Bool)
    (hblock : ∃ k, k ≤ 6 ∧ blockSize.toNat = 2 ^ (10 + k)) (hgroup : s.blocksPerGroup ≠ 0) :
    (fillGroups s blockSize hasFileType hblock).Ensures fun _ => True := by
  have hdescriptors : ∀ (f : List Ext2Group → Ext2Fs) (groupCount : UInt32),
      ((Program.loop groupsRound (groupCount.toNat + 1)
        ⟨groupCount, Offset.wrap ((SB_OFFSET / blockSize.toNat + 1) * blockSize.toNat), []⟩).bind
        fun groups => (Program.ofExcept (checkDescriptors s groups)).bind fun _ =>
          allocate.bind fun _ => pure (f groups)).Ensures fun _ => True := by
    intro f groupCount
    obtain ⟨hfirst, -⟩ := firstGroup_onBlock hblock groupCount
    have hloop := Program.loop_ensures (I := GroupScan.OnBlock) (m := fun x => x.remain.toNat)
      (fun _ hx => groupsRound_ensures hx) hfirst (Nat.lt_succ_self _)
    apply hloop.bind
    intro groups _
    apply (Program.ensures_ofExcept fun _ _ => trivial).bind (Q := fun _ => True)
    intro _ _ r
    cases r <;> trivial
  unfold fillGroups
  apply (Program.ensures_ofExcept fun _ _ => trivial).bind (Q := fun _ => True)
  intro geometry _
  rw [Program.require_eq (inodeSize_ne geometry), Program.bind_eq, Program.done_bind]
  dsimp only
  split
  next => trivial
  next =>
    rw [Program.require_eq hgroup, Program.require_eq (pow_ne_zero hblock)]
    simp only [Program.bind_eq, Program.done_bind]
    split
    next =>
      intro r
      cases r with
      | false => trivial
      | true => exact hdescriptors _ _
    next => exact hdescriptors _ _

theorem readSuper_ensures : readSuper.Ensures fun _ => True := by
  intro minimum
  simp only [Program.done_bind]
  split
  next => trivial
  next =>
    apply (mappedFolio_ensures _).bind
    intro mapped _
    exact Program.ensures_ofOption _ fun _ _ => trivial

theorem fillGroups_aborted_iff {s : Ext2Super} {blockSize : UInt32} (hasFileType : Bool)
    (hblock : ∃ k, k ≤ 6 ∧ blockSize.toNat = 2 ^ (10 + k)) (env : Kernel INodeData)
    (h : History INodeData) :
    ((fillGroups s blockSize hasFileType hblock).run env h).1 = .aborted ↔
      (∃ g, inodeGeometry s blockSize hblock = .ok g) ∧ s.inodesPerGroup ≠ 0 ∧
        s.blocksPerGroup = 0 := by
  by_cases hgroup : s.blocksPerGroup = 0
  · unfold fillGroups
    cases hgeometry : inodeGeometry s blockSize hblock with
    | error e =>
      refine iff_of_false (by rintro ⟨⟩) ?_
      rintro ⟨⟨g, hg⟩, -⟩
      cases hg
    | ok geometry =>
      rw [Program.ofExcept_ok, Program.bind_eq, Program.done_bind,
        Program.require_eq (inodeSize_ne geometry), Program.bind_eq, Program.done_bind]
      dsimp only
      by_cases hinodes : s.inodesPerGroup = 0
      · rw [dif_pos (Or.inl hinodes)]
        exact iff_of_false (by rintro ⟨⟩) fun hzero => hzero.2.1 hinodes
      · rw [dif_neg (not_or.mpr ⟨hinodes, inodesPerBlock_ne geometry⟩), Program.require,
          if_neg (not_not.mpr hgroup)]
        exact iff_of_true rfl ⟨⟨geometry, rfl⟩, hinodes, hgroup⟩
  · refine iff_of_false ?_ fun hzero => hgroup hzero.2.2
    exact Outcome.ne_aborted_iff.mpr (comesBack_of_ensures (fillGroups_ensures _ hblock hgroup) env h)

theorem mountSuper_aborted_iff (sb : SuperBlock) (s : Ext2Super) (env : Kernel INodeData)
    (h : History INodeData) :
    ((mountSuper sb s).run env h).1 = .aborted ↔
      Admitted s sb.rdonly ∧
        env h (.sbMinBlocksize ((1024 : UInt32) <<< s.logBlockSize).toBitVec) =
          ((1024 : UInt32) <<< s.logBlockSize).toBitVec ∧ s.blocksPerGroup = 0 := by
  unfold mountSuper
  by_cases hmagic : s.magic = EXT2_SUPER_MAGIC
  swap
  · rw [if_pos hmagic]
    exact iff_of_false (by rintro ⟨⟩) fun hall => hmagic hall.1.magic
  rw [if_neg (not_not.mpr hmagic)]
  cases hfeatures : checkFeatures s sb.rdonly with
  | error e =>
    refine iff_of_false (by rintro ⟨⟩) fun hall => ?_
    obtain ⟨hasFileType, hok⟩ := hall.1.features
    rw [hfeatures] at hok
    cases hok
  | ok hasFileType =>
    rw [Program.ofExcept_ok, Program.bind_eq, Program.done_bind]
    by_cases hbits : s.logBlockSize > EXT2_MAX_BLOCK_LOG_SIZE - 10
    · rw [dif_pos hbits]
      exact iff_of_false (by rintro ⟨⟩) fun hall => hall.1.bits hbits
    rw [dif_neg hbits, Program.require_eq (shift_lt hbits), Program.bind_eq, Program.done_bind]
    dsimp only
    rw [Program.bind_eq, Program.ask_bind, Program.run]
    by_cases haccepted : env h (.sbMinBlocksize ((1024 : UInt32) <<< s.logBlockSize).toBitVec) =
        ((1024 : UInt32) <<< s.logBlockSize).toBitVec
    · rw [if_neg (not_not.mpr haccepted), fillGroups_aborted_iff]
      constructor
      · rintro ⟨hgeometry, hinodes, hgroup⟩
        exact ⟨⟨hmagic, ⟨hasFileType, hfeatures⟩, hbits, hgeometry, hinodes⟩, haccepted, hgroup⟩
      · rintro ⟨hadmitted, -, hgroup⟩
        exact ⟨hadmitted.geometry, hadmitted.inodes, hgroup⟩
    · rw [if_pos haccepted]
      exact iff_of_false (by rintro ⟨⟩) fun hall => haccepted hall.2.1

/-- Mounting panics on the devices whose superblock passes the checks and has no blocks in a group,
and on no others. -/
theorem fillSuper_comes_back_iff (sb : SuperBlock) (env : Kernel INodeData) (h : History INodeData) :
    ((∃ fs, ((fillSuper sb).run env h).1 = .done fs) ∨
        ∃ e, ((fillSuper sb).run env h).1 = .failed e) ↔
      ∀ s h', readSuper.run env h = (.done s, h') → Admitted s sb.rdonly →
        env h' (.sbMinBlocksize ((1024 : UInt32) <<< s.logBlockSize).toBitVec) =
          ((1024 : UInt32) <<< s.logBlockSize).toBitVec →
        s.blocksPerGroup ≠ 0 := by
  rw [← Outcome.ne_aborted_iff, fillSuper, Program.bind_eq, Program.run_bind]
  have hends := readSuper_ensures.run env h
  generalize readSuper.run env h = q at hends ⊢
  obtain ⟨o, h'⟩ := q
  rcases hends with ⟨s, rfl, -⟩ | ⟨e, rfl⟩
  · dsimp only
    rw [Ne, mountSuper_aborted_iff]
    constructor
    · rintro hnot s' h'' heq hadmitted haccepted hzero
      obtain ⟨hs, rfl⟩ := Prod.mk.inj heq
      cases Outcome.done.inj hs
      exact hnot ⟨hadmitted, haccepted, hzero⟩
    · rintro hall ⟨hadmitted, haccepted, hzero⟩
      exact hall s h' rfl hadmitted haccepted hzero
  · constructor
    · intro _ s h'' heq
      cases (Prod.mk.inj heq).1
    · intro _ heq
      cases heq

/-- The device of `smallDisk` with `blocks_per_group` set to 0. -/
def noBlocksDisk : Disk := fun offset => if offset = 1057 then 0 else smallDisk (fun _ => 0) offset

theorem fillSuper_divides_by_zero :
    ReadsDisk (diskKernel noBlocksDisk fun _ => .null) noBlocksDisk ∧
      ((fillSuper ⟨0, 0, true⟩).run (diskKernel noBlocksDisk fun _ => .null) []).1 = .aborted ∧
      ((Ext2Fs.fillSuper ⟨0, 0, true⟩).run (diskKernel noBlocksDisk fun _ => .null) []).1 =
        .aborted := by
  have hrun : ((Ext2Fs.fillSuper ⟨0, 0, true⟩).run (diskKernel noBlocksDisk fun _ => .null) []).1 =
      .aborted := by
    rfl
  exact ⟨diskKernel_reads _ _, by rw [fillSuper_eq]; exact hrun, hrun⟩

end Ext2Fs.Panicking

end Rko
