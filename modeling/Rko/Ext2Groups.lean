import Rko.Ext2MountPanics

namespace Rko

open CallProgram

/-- The blocks that a descriptor names. -/
def Ext2Group.blocks (g : Ext2Group) : List UInt32 := [g.blockBitmap, g.inodeBitmap, g.inodeTable]

namespace Ext2Fs

/-- The groups cover the blocks of the file system, and each descriptor names existing blocks of its
own group. -/
structure DescriptorsValid (s : Ext2Super) (groups : List Ext2Group) : Prop where
  first_lt : s.firstDataBlock.toNat < s.blocksCount.toNat
  count : groups.length =
    (s.blocksCount.toNat - s.firstDataBlock.toNat + s.blocksPerGroup.toNat - 1) /
      s.blocksPerGroup.toNat
  blocks : ∀ i g, groups[i]? = some g → ∀ x ∈ g.blocks,
    s.firstDataBlock.toNat + i * s.blocksPerGroup.toNat ≤ x.toNat ∧
      x.toNat ≤ min (s.firstDataBlock.toNat + (i + 1) * s.blocksPerGroup.toNat) s.blocksCount.toNat - 1

section Check

/-- The bounds of `check_descriptors` for the group `i` of `n`. -/
def groupFirst (s : Ext2Super) (i : Nat) : UInt32 :=
  UInt32.ofNat i * s.blocksPerGroup + s.firstDataBlock

def groupLast (s : Ext2Super) (n i : Nat) : UInt32 :=
  if i = n - 1 then s.blocksCount else groupFirst s i + s.blocksPerGroup - 1

variable {s : Ext2Super} {n i : Nat}

theorem checkDescriptorsFrom_cons (g : Ext2Group) (groups : List Ext2Group) :
    checkDescriptorsFrom s n i (g :: groups) =
      if g.blockBitmap < groupFirst s i ∨ g.blockBitmap > groupLast s n i then .error Error.EINVAL
      else if g.inodeBitmap < groupFirst s i ∨ g.inodeBitmap > groupLast s n i then
        .error Error.EINVAL
      else if g.inodeTable < groupFirst s i ∨ g.inodeTable > groupLast s n i then
        .error Error.EINVAL
      else checkDescriptorsFrom s n (i + 1) groups := rfl

theorem checkDescriptorsFrom_ok {groups : List Ext2Group}
    (h : checkDescriptorsFrom s n i groups = .ok ()) {j : Nat} {g : Ext2Group}
    (hg : groups[j]? = some g) {x : UInt32} (hx : x ∈ g.blocks) :
    groupFirst s (i + j) ≤ x ∧ x ≤ groupLast s n (i + j) := by
  induction groups generalizing i j with
  | nil => cases hg
  | cons g' groups ih =>
    rw [checkDescriptorsFrom_cons] at h
    split at h
    next => cases h
    next hblock =>
      split at h
      next => cases h
      next hinode =>
        split at h
        next => cases h
        next htable =>
          cases j with
          | zero =>
            cases hg
            have hone : ∀ y : UInt32, ¬ (y < groupFirst s i ∨ y > groupLast s n i) →
                groupFirst s i ≤ y ∧ y ≤ groupLast s n i := by
              intro y hy
              obtain ⟨hlow, hhigh⟩ := not_or.mp hy
              exact ⟨UInt32.not_lt.mp hlow, UInt32.not_lt.mp hhigh⟩
            simp only [Ext2Group.blocks, List.mem_cons, List.not_mem_nil, or_false] at hx
            obtain rfl | rfl | rfl := hx
            · exact hone _ hblock
            · exact hone _ hinode
            · exact hone _ htable
          | succ j =>
            have hnext := ih h hg
            rwa [Nat.add_assoc, Nat.add_comm 1 j] at hnext

end Check

section Bounds

def groupCount (s : Ext2Super) : UInt32 :=
  (s.blocksCount - s.firstDataBlock - 1) / s.blocksPerGroup + 1

variable {s : Ext2Super}

/-- The number of groups does not wrap. -/
theorem groupCount_toNat (hlt : s.firstDataBlock.toNat < s.blocksCount.toNat) :
    (groupCount s).toNat =
      (s.blocksCount.toNat - s.firstDataBlock.toNat - 1) / s.blocksPerGroup.toNat + 1 := by
  have hsub : (s.blocksCount - s.firstDataBlock).toNat =
      s.blocksCount.toNat - s.firstDataBlock.toNat :=
    UInt32.toNat_sub_of_le _ _ (UInt32.le_iff_toNat_le.mpr hlt.le)
  have hone : (1 : UInt32).toNat = 1 := rfl
  have hpred : (s.blocksCount - s.firstDataBlock - 1).toNat =
      s.blocksCount.toNat - s.firstDataBlock.toNat - 1 := by
    rw [UInt32.toNat_sub_of_le _ _ (UInt32.le_iff_toNat_le.mpr (by omega)), hsub, hone]
  have hbound := s.blocksCount.toNat_lt
  have hdiv := Nat.div_le_self (s.blocksCount.toNat - s.firstDataBlock.toNat - 1)
    s.blocksPerGroup.toNat
  rw [groupCount, UInt32.toNat_add, UInt32.toNat_div, hpred, hone]
  exact Nat.mod_eq_of_lt (by omega)

theorem blocksPerGroup_pos (hgroup : s.blocksPerGroup ≠ 0) : 0 < s.blocksPerGroup.toNat :=
  Nat.pos_of_ne_zero fun hzero => hgroup (UInt32.toNat_inj.mp hzero)

/-- The numbers that the source computes for a group that begins before the end do not wrap. -/
theorem groupFirst_toNat (hgroup : s.blocksPerGroup ≠ 0) {i : Nat}
    (hi : s.firstDataBlock.toNat + i * s.blocksPerGroup.toNat < s.blocksCount.toNat) :
    (groupFirst s i).toNat = s.firstDataBlock.toNat + i * s.blocksPerGroup.toNat := by
  have hpos := blocksPerGroup_pos hgroup
  have hbound := s.blocksCount.toNat_lt
  have hle : i ≤ i * s.blocksPerGroup.toNat := Nat.le_mul_of_pos_right i hpos
  have hcast : (UInt32.ofNat i).toNat = i := UInt32.toNat_ofNat_of_lt' (by show i < 2 ^ 32; omega)
  rw [groupFirst, UInt32.toNat_add, UInt32.toNat_mul, hcast, Nat.mod_eq_of_lt (by omega),
    Nat.mod_eq_of_lt (by omega), Nat.add_comm]

/-- A group before the last one ends where it should. -/
theorem groupLast_toNat (hgroup : s.blocksPerGroup ≠ 0) {n i : Nat} (hn : i + 1 < n)
    (hi : s.firstDataBlock.toNat + (i + 1) * s.blocksPerGroup.toNat < s.blocksCount.toNat) :
    (groupLast s n i).toNat = s.firstDataBlock.toNat + (i + 1) * s.blocksPerGroup.toNat - 1 := by
  have hpos := blocksPerGroup_pos hgroup
  have hbound := s.blocksCount.toNat_lt
  have hone : (1 : UInt32).toNat = 1 := rfl
  rw [Nat.succ_mul] at hi ⊢
  have hfirst := groupFirst_toNat hgroup (i := i) (by omega)
  have hend : (groupFirst s i + s.blocksPerGroup).toNat =
      s.firstDataBlock.toNat + (i * s.blocksPerGroup.toNat + s.blocksPerGroup.toNat) := by
    rw [UInt32.toNat_add, hfirst, Nat.mod_eq_of_lt (by omega)]
    omega
  rw [groupLast, if_neg (by omega),
    UInt32.toNat_sub_of_le _ _ (UInt32.le_iff_toNat_le.mpr (by omega)), hend, hone]

end Bounds

section Mount

variable {s : Ext2Super} {groups : List Ext2Group}

/-- The check lets a descriptor of the last group name the block after the last one, and is right
otherwise. -/
theorem descriptorsValid_iff (hgroup : s.blocksPerGroup ≠ 0)
    (hcount : groups.length = (groupCount s).toNat) (hcheck : checkDescriptors s groups = .ok ()) :
    DescriptorsValid s groups ↔ s.firstDataBlock.toNat < s.blocksCount.toNat ∧
      ∀ g, groups.getLast? = some g → ∀ x ∈ g.blocks, x ≠ s.blocksCount := by
  have hpos := blocksPerGroup_pos hgroup
  constructor
  · intro hvalid
    refine ⟨hvalid.first_lt, ?_⟩
    rintro g hg x hx rfl
    rw [List.getLast?_eq_getElem?] at hg
    obtain ⟨-, hhigh⟩ := hvalid.blocks _ g hg _ hx
    have hlt := hvalid.first_lt
    omega
  · rintro ⟨hlt, hlast⟩
    have hlength := hcount.trans (groupCount_toNat hlt)
    refine ⟨hlt, ?_, ?_⟩
    · rw [hlength, ← Nat.add_div_right _ hpos]
      congr 1
      omega
    · intro i g hg x hx
      obtain ⟨hfirst, hend⟩ := checkDescriptorsFrom_ok hcheck hg hx
      rw [Nat.zero_add, UInt32.le_iff_toNat_le] at hfirst hend
      have hi := (List.getElem?_eq_some_iff.mp hg).1
      have hbegin : i * s.blocksPerGroup.toNat ≤ s.blocksCount.toNat - s.firstDataBlock.toNat - 1 :=
        (Nat.le_div_iff_mul_le hpos).mp (by omega)
      rw [groupFirst_toNat hgroup (by omega)] at hfirst
      refine ⟨hfirst, ?_⟩
      by_cases hmore : i + 1 < groups.length
      · have hnext : (i + 1) * s.blocksPerGroup.toNat ≤
            s.blocksCount.toNat - s.firstDataBlock.toNat - 1 :=
          (Nat.le_div_iff_mul_le hpos).mp (by omega)
        rw [groupLast_toNat hgroup hmore (by omega)] at hend
        omega
      · -- The last group: the bound of the source is one too large.
        have hil : i = groups.length - 1 := by omega
        rw [groupLast, if_pos hil] at hend
        have hne : x ≠ s.blocksCount := by
          apply hlast g _ x hx
          rw [List.getLast?_eq_getElem?, ← hil]
          exact hg
        have hnat : x.toNat ≠ s.blocksCount.toNat := fun heq => hne (UInt32.toNat_inj.mp heq)
        have hover := Nat.lt_mul_div_succ (s.blocksCount.toNat - s.firstDataBlock.toNat - 1) hpos
        rw [← hlength, Nat.mul_comm] at hover
        have hi1 : i + 1 = groups.length := by omega
        rw [hi1]
        omega

/-- As many descriptors are read as asked for: a page from a block on holds one at least. -/
theorem readGroups_ensures {n remain : Nat} (hn : remain ≤ n) {gdOffset : Int}
    (hnonneg : 0 ≤ gdOffset) (haligned : gdOffset % 1024 = 0) (groups : List Ext2Group) :
    (readGroups n remain gdOffset groups).Ensures fun read =>
      read.length = groups.length + remain := by
  induction n generalizing remain gdOffset groups with
  | zero =>
    have hzero : remain = 0 := Nat.le_zero.mp hn
    rw [hzero]
    exact rfl
  | succ n ih =>
    rw [readGroups]
    split
    next hzero =>
      rw [hzero]
      exact rfl
    next hne =>
      apply (mappedFolio_ensures _).bind
      rintro b ⟨-, hlen⟩
      apply (Program.ensures_ofOption _ fun _ h => h).bind
      intro slice hslice
      have hlength := Panicking.length_fromBytesToSlice hslice
      have hpage : PAGE_SIZE = 4096 := rfl
      rw [hpage] at hlen
      apply (ih (by omega) (by omega) (by omega) _).mono
      intro read hread
      rw [hread, List.length_append, List.length_take]
      omega

variable {env : Kernel INodeData} {h : History INodeData} {fs : Ext2Fs}

/-- The run of the loop that read the descriptors of a mounted file system. -/
def GroupsRead (env : Kernel INodeData) (s : Ext2Super) (fs : Ext2Fs) : Prop :=
  ∃ h₁ h₂, (readGroups (groupCount s).toNat (groupCount s).toNat
    ((SB_OFFSET / fs.blockSize.toNat + 1) * fs.blockSize.toNat) []).run env h₁ = (.done fs.groups, h₂)

theorem GroupsRead.length (hread : GroupsRead env s fs) : fs.groups.length = (groupCount s).toNat := by
  obtain ⟨h₁, h₂, hrun⟩ := hread
  obtain ⟨hfirst, hwrap⟩ := Panicking.firstGroup_onBlock fs.blockSize_pow (groupCount s)
  obtain ⟨haligned, hnonneg, -⟩ := hfirst
  simp only [hwrap] at haligned hnonneg
  have hlength := (readGroups_ensures (Nat.le_refl (groupCount s).toNat) hnonneg haligned
    []).run_done (congrArg Prod.fst hrun)
  rw [List.length_nil, Nat.zero_add] at hlength
  exact hlength

theorem fillGroups_done {blockSize : UInt32} {hasFileType : Bool}
    {hblock : ∃ k, k ≤ 6 ∧ blockSize.toNat = 2 ^ (10 + k)}
    (hrun : ((fillGroups s blockSize hasFileType hblock).run env h).1 = .done fs) :
    s.blocksPerGroup ≠ 0 ∧ GroupsRead env s fs ∧ checkDescriptors s fs.groups = .ok () := by
  have hrest : ∀ (f : List Ext2Group → Ext2Fs) (h' : History INodeData),
      (∀ gs, (f gs).groups = gs) → (∀ gs, (f gs).blockSize = blockSize) →
      (((readGroups (groupCount s).toNat (groupCount s).toNat
        ((SB_OFFSET / blockSize.toNat + 1) * blockSize.toNat) []).bind fun groups =>
          (Program.ofExcept (checkDescriptors s groups)).bind fun _ =>
            allocate.bind fun _ => pure (f groups)).run env h').1 = .done fs →
      GroupsRead env s fs ∧ checkDescriptors s fs.groups = .ok () := by
    intro f h' hf hsize hdone
    obtain ⟨groups, h₁, hread, hdone⟩ := Program.run_bind_done hdone
    obtain ⟨_, h₂, hcheck, hdone⟩ := Program.run_bind_done hdone
    obtain ⟨-, h₃, -, hdone⟩ := Program.run_bind_done hdone
    cases hdone
    rw [GroupsRead, hf, hsize]
    exact ⟨⟨h', h₁, hread⟩, Program.run_ofExcept_done (congrArg Prod.fst hcheck)⟩
  obtain ⟨geometry, h₁, -, hdone⟩ := Program.run_bind_done hrun
  dsimp only at hdone
  split at hdone
  next => cases hdone
  next =>
    split at hdone
    next => cases hdone
    next hgroup =>
      refine ⟨hgroup, ?_⟩
      split at hdone
      next =>
        obtain ⟨-, h₂, -, hdone⟩ := Program.run_bind_done hdone
        exact hrest _ h₂ (fun _ => rfl) (fun _ => rfl) hdone
      next => exact hrest _ h₁ (fun _ => rfl) (fun _ => rfl) hdone

theorem mountSuper_done {sb : SuperBlock}
    (hrun : ((Panicking.mountSuper sb s).run env h).1 = .done fs) :
    s.blocksPerGroup ≠ 0 ∧ GroupsRead env s fs ∧ checkDescriptors s fs.groups = .ok () := by
  rw [Panicking.mountSuper] at hrun
  split at hrun
  next => cases hrun
  next =>
    obtain ⟨hasFileType, h₁, -, hdone⟩ := Program.run_bind_done hrun
    split at hdone
    next => cases hdone
    next =>
      obtain ⟨-, h₂, -, hdone⟩ := Program.run_bind_done hdone
      obtain ⟨accepted, h₃, -, hdone⟩ := Program.run_bind_done hdone
      split at hdone
      next => cases hdone
      next =>
        rw [Panicking.fillGroups_eq] at hdone
        exact fillGroups_done hdone

/-- After a successful mount the descriptors are valid exactly if the file system has a data block and
the last descriptor does not name the block after the last one. -/
theorem fillSuper_descriptors_valid_iff {sb : SuperBlock}
    (hrun : ((fillSuper sb).run env h).1 = .done fs) :
    ∃ s h', Panicking.readSuper.run env h = (.done s, h') ∧
      (DescriptorsValid s fs.groups ↔ s.firstDataBlock.toNat < s.blocksCount.toNat ∧
        ∀ g, fs.groups.getLast? = some g → ∀ x ∈ g.blocks, x ≠ s.blocksCount) := by
  rw [← Panicking.fillSuper_eq] at hrun
  obtain ⟨s, h', hread, hmount⟩ := Program.run_bind_done hrun
  obtain ⟨hgroup, hgroups, hcheck⟩ := mountSuper_done hmount
  exact ⟨s, h', hread, descriptorsValid_iff hgroup hgroups.length hcheck⟩

/-- A device of 66 groups of eight blocks of 1024 bytes. Group `i` has its bitmaps and its inode table
in its first three blocks, and the table of descriptors goes on in the second page. -/
def manyGroupsDisk : Disk
  | 1024 => 128
  | 1028 => 17
  | 1029 => 2
  | 1044 => 1
  | 1056 => 8
  | 1064 => 128
  | 1080 => 0x53
  | 1081 => 0xEF
  | offset =>
    let block := 1 + (offset - 2048) / 32 * 8 + offset % 32 / 4
    if offset < 2048 ∨ 4160 ≤ offset ∨ 12 ≤ offset % 32 then 0
    else if offset % 4 = 0 then UInt8.ofNat block
    else if offset % 4 = 1 then UInt8.ofNat (block / 256)
    else 0

def manyGroups : List Ext2Group :=
  (List.range 66).map fun i =>
    ⟨UInt32.ofNat (1 + i * 8), UInt32.ofNat (2 + i * 8), UInt32.ofNat (3 + i * 8)⟩

def manyGroupsKernel : Kernel INodeData := diskKernel manyGroupsDisk fun _ => .null

theorem mount_manyGroups :
    ∃ fs, ((fillSuper ⟨0, 0, true⟩).run manyGroupsKernel []).1 = .done fs ∧ fs.blockSize = 1024 ∧
      fs.groups = manyGroups := by
  have hmount : (((fillSuper ⟨0, 0, true⟩).bind fun fs => pure (fs.blockSize, fs.groups)).run
      manyGroupsKernel []).1 = .done (1024, manyGroups) := by
    decide +kernel
  obtain ⟨fs, h, hrun, hend⟩ := Program.run_bind_done hmount
  obtain ⟨hsize, hgroups⟩ := Prod.mk.inj (Outcome.done.inj hend)
  exact ⟨fs, congrArg Prod.fst hrun, hsize, hgroups⟩

theorem readSuper_manyGroups : (Panicking.readSuper.run manyGroupsKernel []).1 =
    .done (Ext2Super.decode (manyGroupsDisk.tail 1024)) := rfl

theorem fillSuper_descriptors_valid_iff_manyGroups :
    ∃ fs s h', ((fillSuper ⟨0, 0, true⟩).run manyGroupsKernel []).1 = .done fs ∧
      fs.groups = manyGroups ∧ Panicking.readSuper.run manyGroupsKernel [] = (.done s, h') ∧
      DescriptorsValid s manyGroups := by
  obtain ⟨fs, hmount, -, hgroups⟩ := mount_manyGroups
  obtain ⟨s, h', hread, hvalid⟩ := fillSuper_descriptors_valid_iff hmount
  rw [hgroups] at hvalid
  refine ⟨fs, s, h', hmount, hgroups, hread, hvalid.mpr ?_⟩
  have hs := readSuper_manyGroups
  rw [hread] at hs
  cases hs
  refine ⟨by decide, ?_⟩
  intro g hg x hx
  have hlast : manyGroups.getLast? = some ⟨521, 522, 523⟩ := by decide
  cases hlast.symm.trans hg
  simp only [Ext2Group.blocks, List.mem_cons, List.not_mem_nil, or_false] at hx
  obtain rfl | rfl | rfl := hx
  all_goals decide

/-- The device of `smallDisk` with the inode table right after the last block. -/
def pastEndDisk : Disk := fun offset => if offset = 2056 then 128 else smallDisk (fun _ => 0) offset

/-- The device of `smallDisk` with no data block, in groups of one block. -/
def noDataDisk : Disk := fun offset =>
  if offset = 1044 then 128 else if offset = 1056 then 1 else if offset = 1057 then 0
  else smallDisk (fun _ => 0) offset

/-- Two devices are mounted that should not be: the inode table of the first is the block 128 of the
blocks 0 to 127, and the second has no data block, where the number of groups wraps to 0. -/
theorem fillSuper_accepts_invalid_descriptors :
    (∃ fs s h',
      ((fillSuper ⟨0, 0, true⟩).run (diskKernel pastEndDisk fun _ => .null) []).1 = .done fs ∧
      Panicking.readSuper.run (diskKernel pastEndDisk fun _ => .null) [] = (.done s, h') ∧
      s.blocksCount = 128 ∧ fs.groups = [⟨3, 4, 128⟩] ∧ ¬ DescriptorsValid s fs.groups) ∧
    ∃ fs s h',
      ((fillSuper ⟨0, 0, true⟩).run (diskKernel noDataDisk fun _ => .null) []).1 = .done fs ∧
      Panicking.readSuper.run (diskKernel noDataDisk fun _ => .null) [] = (.done s, h') ∧
      s.blocksCount = 128 ∧ s.firstDataBlock = 128 ∧ fs.groups = [] ∧
      ¬ DescriptorsValid s fs.groups := by
  constructor
  · refine ⟨_, _, _, by rfl, by rfl, by rfl, by rfl, fun hvalid => ?_⟩
    have hblock := hvalid.blocks 0 ⟨3, 4, 128⟩ rfl 128 (by decide)
    exact absurd hblock.2 (by decide)
  · refine ⟨_, _, _, by rfl, by rfl, by rfl, by rfl, by rfl, fun hvalid => ?_⟩
    exact absurd hvalid.first_lt (by decide)

end Mount

end Ext2Fs

end Rko
