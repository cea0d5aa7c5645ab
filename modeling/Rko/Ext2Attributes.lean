import Rko.Ext2InodeTable

namespace Rko

open CallProgram

/-- A mask of `k` bits from bit `j` on keeps a part of the quotient. -/
theorem and_field (x k j : Nat) : x &&& ((2 ^ k - 1) <<< j) = 2 ^ j * (x / 2 ^ j % 2 ^ k) := by
  apply Nat.eq_of_testBit_eq
  intro i
  rw [Nat.testBit_and, Nat.testBit_shiftLeft, Nat.testBit_two_pow_sub_one, Nat.testBit_two_pow_mul,
    Nat.testBit_mod_two_pow, Nat.testBit_div_two_pow]
  by_cases hi : j ≤ i
  · simp [hi, Bool.and_comm]
  · simp [hi]

section Mode

variable (mode : UInt16)

theorem typeBits_toNat : (mode &&& 0xF000).toNat = 4096 * (mode.toNat / 4096) := by
  have hfield := and_field mode.toNat 4 12
  have hlt := mode.toNat_lt
  have hand : (mode &&& 0xF000).toNat = mode.toNat &&& 0xF000 := UInt16.toNat_and _ _
  rw [hand]
  refine hfield.trans ?_
  omega

theorem permissions_toNat : (mode &&& 0o777).toNat = mode.toNat % 512 := by
  have hand : (mode &&& 0o777).toNat = mode.toNat &&& 0o777 := UInt16.toNat_and _ _
  rw [hand]
  exact Nat.and_two_pow_sub_one_eq_mod mode.toNat 9

theorem setBits_toNat : (mode &&& 0o7000).toNat = 512 * (mode.toNat / 512 % 8) := by
  have hand : (mode &&& 0o7000).toNat = mode.toNat &&& 0o7000 := UInt16.toNat_and _ _
  rw [hand]
  exact and_field mode.toNat 3 9

theorem allPermissions_toNat : (mode &&& 0o7777).toNat = mode.toNat % 4096 := by
  have hand : (mode &&& 0o7777).toNat = mode.toNat &&& 0o7777 := UInt16.toNat_and _ _
  rw [hand]
  exact Nat.and_two_pow_sub_one_eq_mod mode.toNat 12

/-- The mode that `init` composes keeps all but the setuid, setgid and sticky bits. -/
theorem composedMode_eq_iff :
    (mode &&& 0o7777 &&& 0o777) ||| (mode &&& 0xF000) = mode ↔ mode &&& 0o7000 = 0 := by
  have hlow : mode &&& 0o7777 &&& 0o777 = mode &&& 0o777 := UInt16.and_assoc _ _ _
  have hor : ((mode &&& 0o777) ||| (mode &&& 0xF000)).toNat =
      4096 * (mode.toNat / 4096) + mode.toNat % 512 := by
    rw [UInt16.toNat_or, permissions_toNat, typeBits_toNat, Nat.or_comm]
    exact (Nat.two_pow_add_eq_or_of_lt (i := 12) (by omega) _).symm
  have hset := setBits_toNat mode
  rw [hlow, ← UInt16.toNat_inj, ← UInt16.toNat_inj, hor, hset]
  show _ ↔ _ = 0
  omega

/-- The bare type bits are the mode if it has no other bits. -/
theorem bareMode_eq_iff : mode &&& 0xF000 = mode ↔ mode &&& 0o7777 = 0 := by
  rw [← UInt16.toNat_inj, ← UInt16.toNat_inj, typeBits_toNat, allPermissions_toNat]
  show _ ↔ _ = 0
  omega

end Mode

section Device

theorem firstPointer_lt : 0 < EXT2_N_BLOCKS := by decide

theorem secondPointer_lt : 1 < EXT2_N_BLOCKS := by decide

/-- The device numbers in a record: bytes of the first pointer in the old form; in the new form, in the
second pointer, the minor number is split into its lowest byte and the twelve highest bits. -/
def deviceNumbers (block : Vector UInt32 EXT2_N_BLOCKS) : Nat × Nat :=
  let old := (block.get ⟨0, firstPointer_lt⟩).toNat
  let new := (block.get ⟨1, secondPointer_lt⟩).toNat
  if old ≠ 0 then (old / 2 ^ 8 % 2 ^ 8, old % 2 ^ 8)
  else (new / 2 ^ 8 % 2 ^ 12, 2 ^ 8 * (new / 2 ^ 20) + new % 2 ^ 8)

theorem low8_toNat (v : UInt32) : (v &&& 255).toNat = v.toNat % 2 ^ 8 := by
  have hand : (v &&& 255).toNat = v.toNat &&& 255 := UInt32.toNat_and _ _
  rw [hand]
  exact Nat.and_two_pow_sub_one_eq_mod v.toNat 8

theorem shift8_toNat (v : UInt32) : (v >>> 8).toNat = v.toNat / 2 ^ 8 := by
  rw [UInt32.toNat_shiftRight, Nat.shiftRight_eq_div_pow]
  rfl

theorem shift12_toNat (v : UInt32) : (v >>> 12).toNat = v.toNat / 2 ^ 12 := by
  rw [UInt32.toNat_shiftRight, Nat.shiftRight_eq_div_pow]
  rfl

theorem middle12_toNat (v : UInt32) :
    (v &&& (0xfff00 : UInt32)).toNat = 2 ^ 8 * (v.toNat / 2 ^ 8 % 2 ^ 12) := by
  have hand : (v &&& (0xfff00 : UInt32)).toNat = v.toNat &&& 0xfff00 := UInt32.toNat_and _ _
  rw [hand]
  exact and_field v.toNat 12 8

theorem decodeDev_toNat (block : Vector UInt32 EXT2_N_BLOCKS) :
    ((decodeDev block).1.toNat, (decodeDev block).2.toNat) = deviceNumbers block ∧
      (deviceNumbers block).1 < 2 ^ 12 ∧ (deviceNumbers block).2 < 2 ^ 20 := by
  rw [decodeDev, deviceNumbers]
  generalize block.get ⟨0, firstPointer_lt⟩ = old
  generalize block.get ⟨1, secondPointer_lt⟩ = new
  have hzero : old ≠ 0 ↔ old.toNat ≠ 0 := not_congr UInt32.toNat_inj.symm
  have hlt := new.toNat_lt
  by_cases hold : old ≠ 0
  · have hold' := hzero.mp hold
    simp only [if_pos hold, if_pos hold', low8_toNat, shift8_toNat]
    refine ⟨trivial, ?_, ?_⟩ <;> omega
  · have hold' : ¬ old.toNat ≠ 0 := fun h => hold (hzero.mpr h)
    have hmajor : ((new &&& (0xfff00 : UInt32)) >>> 8).toNat = new.toNat / 2 ^ 8 % 2 ^ 12 := by
      rw [shift8_toNat, middle12_toNat]
      omega
    have hminor : ((new &&& (0xff : UInt32)) ||| ((new >>> 12) &&& (0xfff00 : UInt32))).toNat =
        2 ^ 8 * (new.toNat / 2 ^ 20) + new.toNat % 2 ^ 8 := by
      rw [UInt32.toNat_or, low8_toNat, middle12_toNat, shift12_toNat, Nat.or_comm,
        ← Nat.two_pow_add_eq_or_of_lt (by omega)]
      omega
    simp only [if_neg hold, if_neg hold', hmajor, hminor]
    refine ⟨trivial, ?_, ?_⟩ <;> omega

/-- The functions of the kernel for special inodes. -/
def linuxSpecialInodes : SpecialInodes where
  mkdev major minor := (major <<< 20) ||| minor
  initSpecialInode fields mode dev :=
    ⟨mode, if mode = S_IFCHR ∨ mode = S_IFBLK then dev else fields.rdev⟩

theorem linuxSpecialInodes_linux : linuxSpecialInodes.Linux where
  mkdev_toNat := by
    intro major minor hmajor hminor
    have hshift : (major <<< 20).toNat = 2 ^ 20 * major.toNat := by
      rw [UInt32.toNat_shiftLeft, Nat.shiftLeft_eq]
      show major.toNat * 2 ^ 20 % 2 ^ 32 = _
      omega
    rw [linuxSpecialInodes, UInt32.toNat_or, hshift, ← Nat.two_pow_add_eq_or_of_lt hminor]
  mode_eq := fun _ _ _ => rfl
  rdev_eq := fun _ _ {_} hmode => if_pos hmode

theorem minor_masked {minor : UInt32} (hminor : minor.toNat < 2 ^ 20) :
    minor &&& RKO_MINORMASK = minor := by
  apply UInt32.toNat_inj.mp
  have hand : (minor &&& RKO_MINORMASK).toNat = minor.toNat &&& 0xfffff := UInt32.toNat_and _ _
  rw [hand]
  exact (Nat.and_two_pow_sub_one_eq_mod minor.toNat 20).trans (Nat.mod_eq_of_lt hminor)

/-- The device number is the pair of the numbers in the record. -/
theorem mkdev_decodeDev {k : SpecialInodes} (hk : k.Linux) (block : Vector UInt32 EXT2_N_BLOCKS) :
    let dev := (k.mkdev (decodeDev block).1 ((decodeDev block).2 &&& RKO_MINORMASK)).toNat
    (dev / 2 ^ 20, dev % 2 ^ 20) = deviceNumbers block := by
  intro dev
  obtain ⟨hnumbers, hmajor, hminor⟩ := decodeDev_toNat block
  rw [← hnumbers] at hmajor hminor ⊢
  have hdev : dev = 2 ^ 20 * (decodeDev block).1.toNat + (decodeDev block).2.toNat := by
    show UInt32.toNat _ = _
    rw [minor_masked hminor]
    exact hk.mkdev_toNat hmajor hminor
  rw [hdev]
  congr 1 <;> omega

end Device

namespace Ext2Fs

/-- What `iget` knows of a record when it has chosen the type of the inode. -/
inductive TypeChosen (n : NewINode) (idata : Ext2DiskInode) (b : Slice) (start : Nat) :
    NewINode → INodeType → Prop
  | reg (fmt : idata.mode &&& 0xF000 = S_IFREG) :
    TypeChosen n idata b start ((n.setAops .iomap).setFops .regular) .reg
  | dir (fmt : idata.mode &&& 0xF000 = S_IFDIR) :
    TypeChosen n idata b start (((n.setIops .dir).setFops .dir).setAops .iomap) .dir
  | fast (fmt : idata.mode &&& 0xF000 = S_IFLNK) (blocks : idata.blocks = 0) {target : Slice}
    (found : fastTarget b (start + Ext2DiskInode.blockOffset) idata.size.toNat = .ok target) :
    TypeChosen n idata b start n (.lnk (some target))
  | slow (fmt : idata.mode &&& 0xF000 = S_IFLNK) (blocks : idata.blocks ≠ 0) :
    TypeChosen n idata b start (n.setAops .iomap) (.lnk none)
  | sock (fmt : idata.mode &&& 0xF000 = S_IFSOCK) : TypeChosen n idata b start n .sock
  | fifo (fmt : idata.mode &&& 0xF000 = S_IFIFO) : TypeChosen n idata b start n .fifo
  | chr (fmt : idata.mode &&& 0xF000 = S_IFCHR) :
    TypeChosen n idata b start n (.chr (decodeDev idata.block).1 (decodeDev idata.block).2)
  | blk (fmt : idata.mode &&& 0xF000 = S_IFBLK) :
    TypeChosen n idata b start n (.blk (decodeDev idata.block).1 (decodeDev idata.block).2)

/-- The size that a record gives: 64 bits for a regular file, else 32. -/
def recordSize (idata : Ext2DiskInode) : Nat :=
  if idata.mode &&& 0xF000 = S_IFREG then idata.size.toNat + 2 ^ 32 * idata.dirAcl.toNat
  else idata.size.toNat

theorem TypeChosen.typeBits_eq {n n' : NewINode} {idata : Ext2DiskInode} {b : Slice} {start : Nat}
    {typ : INodeType} (h : TypeChosen n idata b start n' typ) :
    typ.typeBits = idata.mode &&& 0xF000 := by
  cases h <;> exact Eq.symm ‹_›

theorem wideSize_toNat (size dirAcl : UInt32) :
    (size.toUInt64 ||| (dirAcl.toUInt64 <<< 32)).toNat = size.toNat + 2 ^ 32 * dirAcl.toNat := by
  have hsize := size.toNat_lt
  have hacl := dirAcl.toNat_lt
  have hshift : (dirAcl.toUInt64 <<< 32).toNat = 2 ^ 32 * dirAcl.toNat := by
    rw [UInt64.toNat_shiftLeft, Nat.shiftLeft_eq, UInt32.toNat_toUInt64]
    show dirAcl.toNat * 2 ^ 32 % 2 ^ 64 = _
    omega
  rw [UInt64.toNat_or, hshift, UInt32.toNat_toUInt64, Nat.or_comm,
    ← Nat.two_pow_add_eq_or_of_lt hsize, Nat.add_comm]

theorem inodeType_ok {n n' : NewINode} {idata : Ext2DiskInode} {b : Slice} {start : Nat}
    {typ : INodeType} {size : Offset} (h : inodeType n idata b start = .ok (n', typ, size)) :
    TypeChosen n idata b start n' typ ∧ size = Offset.wrap (recordSize idata) := by
  have hnarrow : idata.mode &&& 0xF000 ≠ S_IFREG →
      Offset.ofUInt64 idata.size.toUInt64 = Offset.wrap (recordSize idata) := by
    intro hne
    rw [Offset.ofUInt64, recordSize, if_neg hne, UInt32.toNat_toUInt64]
  unfold inodeType at h
  simp only at h
  split at h
  next hreg =>
    cases h
    refine ⟨.reg hreg, ?_⟩
    have hfmt : idata.mode &&& 0xF000 = S_IFREG := hreg
    rw [Offset.ofUInt64, recordSize, if_pos hfmt, wideSize_toNat]
  next hreg =>
    split at h
    next hdir =>
      cases h
      exact ⟨.dir hdir, hnarrow hreg⟩
    next =>
      split at h
      next hlnk =>
        split at h
        next hfast =>
          split at h
          next target htarget =>
            cases h
            exact ⟨.fast hlnk hfast htarget, hnarrow hreg⟩
          next => cases h
        next hslow =>
          cases h
          exact ⟨.slow hlnk hslow, hnarrow hreg⟩
      next =>
        split at h
        next hsock =>
          cases h
          exact ⟨.sock hsock, hnarrow hreg⟩
        next =>
          split at h
          next hfifo =>
            cases h
            exact ⟨.fifo hfifo, hnarrow hreg⟩
          next =>
            split at h
            next hchr =>
              cases h
              exact ⟨.chr hchr, hnarrow hreg⟩
            next =>
              split at h
              next hblk =>
                cases h
                exact ⟨.blk hblk, hnarrow hreg⟩
              next => cases h

theorem decodeInode_ok {s : Ext2Fs} {n : NewINode} {offset : UInt32} {b : Slice}
    {inode : VfsInode INodeData} (h : s.decodeInode n offset b = .ok inode) :
    ∃ idata n' typ, Ext2DiskInode.fromBytes b (s.inodeStart offset) = some idata ∧
      TypeChosen n idata b (s.inodeStart offset) n' typ ∧
      inode = n'.init (inodeParams idata typ (Offset.wrap (recordSize idata))) := by
  rw [decodeInode] at h
  split at h
  next => cases h
  next idata hfrom =>
    split at h
    next => cases h
    next =>
      split at h
      next => cases h
      next n' typ size htype =>
        cases h
        obtain ⟨hchosen, rfl⟩ := inodeType_ok htype
        exact ⟨idata, n', typ, hfrom, hchosen, rfl⟩

section

variable {s : Ext2Fs} {env : Kernel INodeData} {disk : Disk} {h : History INodeData} {ino : UInt32}
  {i : UInt64} {sb : Ptr} {inode : VfsInode INodeData}

/-- A new inode that `iget` returns was made of the record at its address. -/
theorem iget_loaded (hd : ReadsPages env disk)
    (hfresh : env h (.igetLocked ino.toUInt64) = .fresh i sb)
    (hrun : ((s.iget ino).run env h).1 = .done inode) :
    ∃ g offset b n' typ, s.locate ino = .ok (g, offset) ∧
      s.inodeStart offset + 128 ≤ b.len ∧
      (∀ j, s.inodeStart offset + j < b.len →
        b.byte (s.inodeStart offset + j) = disk (s.recordAddress g offset + j)) ∧
      TypeChosen (.new i sb) (Ext2DiskInode.decode (disk.tail (s.recordAddress g offset))) b
        (s.inodeStart offset) n' typ ∧
      inode = n'.init (inodeParams (Ext2DiskInode.decode (disk.tail (s.recordAddress g offset))) typ
        (Offset.wrap (recordSize (Ext2DiskInode.decode (disk.tail (s.recordAddress g offset)))))) := by
  obtain ⟨⟨g, offset⟩, h₁, hlocate, -⟩ := Program.run_bind_done hrun
  have hloc := Program.run_ofExcept_done (congrArg Prod.fst hlocate)
  obtain ⟨e, -, hfailed⟩ | ⟨b, hread, houtcome⟩ := iget_outcome_fresh hloc hfresh
  · cases hfailed.symm.trans hrun
  rw [houtcome] at hrun
  cases hdecode : s.decodeInode (.new i sb) offset b with
  | error e =>
    rw [hdecode] at hrun
    cases hrun
  | ok inode' =>
    rw [hdecode] at hrun
    cases hrun
    obtain ⟨idata, n', typ, hfrom, hchosen, rfl⟩ := decodeInode_ok hdecode
    obtain ⟨hlen, rfl⟩ := record_of_fromBytes hd hread hfrom
    exact ⟨g, offset, b, n', typ, hloc, hlen, fun j hj => record_byte hd hread hj, hchosen, rfl⟩

end

/-- The types whose inodes are set up by `init_special_inode`. -/
def specialMode (mode : UInt16) : Bool :=
  mode &&& 0xF000 ∈ [S_IFSOCK, S_IFIFO, S_IFCHR, S_IFBLK]

/-- The inode has the owner, the number of links, the size, the block pointers and the device number of
the record. -/
structure CarriesRecord (k : SpecialInodes) (inode : VfsInode INodeData) (idata : Ext2DiskInode) :
    Prop where
  uid_eq : inode.uid.toNat = idata.uid.toNat + 2 ^ 16 * idata.uidHigh.toNat
  gid_eq : inode.gid.toNat = idata.gid.toNat + 2 ^ 16 * idata.gidHigh.toNat
  nlink_eq : inode.nlink.toNat = idata.linksCount.toNat
  size_eq : inode.size = Offset.wrap (recordSize idata)
  blocks_eq : inode.data.dataBlocks = idata.block
  device_eq : idata.mode &&& 0xF000 = S_IFCHR ∨ idata.mode &&& 0xF000 = S_IFBLK →
    ((inode.nodeFields k).rdev.toNat / 2 ^ 20, (inode.nodeFields k).rdev.toNat % 2 ^ 20) =
      deviceNumbers idata.block

theorem joined_toNat (low high : UInt16) :
    (low.toUInt32 ||| (high.toUInt32 <<< 16)).toNat = low.toNat + 2 ^ 16 * high.toNat := by
  have hlow := low.toNat_lt
  have hhigh := high.toNat_lt
  have hshift : (high.toUInt32 <<< 16).toNat = 2 ^ 16 * high.toNat := by
    rw [UInt32.toNat_shiftLeft, Nat.shiftLeft_eq, UInt16.toNat_toUInt32]
    show high.toNat * 2 ^ 16 % 2 ^ 32 = _
    omega
  rw [UInt32.toNat_or, hshift, UInt16.toNat_toUInt32, Nat.or_comm,
    ← Nat.two_pow_add_eq_or_of_lt hlow, Nat.add_comm]

theorem TypeChosen.carriesRecord {n n' : NewINode} {idata : Ext2DiskInode} {b : Slice} {start : Nat}
    {typ : INodeType} (h : TypeChosen n idata b start n' typ) {k : SpecialInodes} (hk : k.Linux) :
    CarriesRecord k (n'.init (inodeParams idata typ (Offset.wrap (recordSize idata)))) idata := by
  obtain ⟨huid, hgid, hnlink, hsize, hdata⟩ :=
    n'.init_attributes (inodeParams idata typ (Offset.wrap (recordSize idata)))
  refine ⟨?_, ?_, ?_, hsize, ?_, ?_⟩
  · rw [huid]
    exact joined_toNat _ _
  · rw [hgid]
    exact joined_toNat _ _
  · rw [hnlink]
    exact UInt16.toNat_toUInt32 _
  · rw [hdata]
    rfl
  · intro hfmt
    cases h with
    | chr fmt =>
      rw [VfsInode.nodeFields_rdev hk rfl (Or.inl rfl)]
      exact mkdev_decodeDev hk idata.block
    | blk fmt =>
      rw [VfsInode.nodeFields_rdev hk rfl (Or.inr rfl)]
      exact mkdev_decodeDev hk idata.block
    | reg fmt | dir fmt | fast fmt | slow fmt | sock fmt | fifo fmt =>
      rw [fmt] at hfmt
      exact absurd hfmt (by decide)

/-- Special inodes get the type bits only. -/
theorem TypeChosen.mode_eq {n n' : NewINode} {idata : Ext2DiskInode} {b : Slice} {start : Nat}
    {typ : INodeType} (h : TypeChosen n idata b start n' typ) {k : SpecialInodes} (hk : k.Linux)
    (size : Offset) :
    ((n'.init (inodeParams idata typ size)).nodeFields k).mode =
      if specialMode idata.mode then idata.mode &&& 0xF000
      else (idata.mode &&& 0o7777 &&& 0o777) ||| (idata.mode &&& 0xF000) := by
  have hbits := h.typeBits_eq
  have hplain := n'.init_mode (inodeParams idata typ size)
  cases h with
  | chr fmt | blk fmt | fifo fmt | sock fmt =>
    rw [specialMode, fmt]
    exact hk.mode_eq _ _ _
  | reg fmt | dir fmt | fast fmt | slow fmt =>
    rw [specialMode, ← hbits]
    exact hplain

theorem TypeChosen.mode_eq_iff {n n' : NewINode} {idata : Ext2DiskInode} {b : Slice} {start : Nat}
    {typ : INodeType} (h : TypeChosen n idata b start n' typ) {k : SpecialInodes} (hk : k.Linux)
    (size : Offset) :
    ((n'.init (inodeParams idata typ size)).nodeFields k).mode = idata.mode ↔
      idata.mode &&& (if specialMode idata.mode then 0o7777 else 0o7000) = 0 := by
  rw [h.mode_eq hk]
  by_cases hspecial : specialMode idata.mode = true
  · rw [if_pos hspecial, if_pos hspecial]
    exact bareMode_eq_iff _
  · rw [if_neg hspecial, if_neg hspecial]
    exact composedMode_eq_iff _

/-- A new inode carries the attributes of its record except for the mode: `init` drops the setuid,
setgid and sticky bits, and of special files all permissions. -/
theorem iget_attributes_faithful_iff {s : Ext2Fs} {k : SpecialInodes} (hk : k.Linux)
    {env : Kernel INodeData} {disk : Disk} (hd : ReadsPages env disk) {h : History INodeData}
    {ino : UInt32} {i : UInt64} {sb : Ptr}
    (hfresh : env h (.igetLocked ino.toUInt64) = .fresh i sb) {inode : VfsInode INodeData}
    (hrun : ((s.iget ino).run env h).1 = .done inode) :
    ∃ g offset, s.locate ino = .ok (g, offset) ∧
      let idata := Ext2DiskInode.decode (disk.tail (s.recordAddress g offset))
      CarriesRecord k inode idata ∧
        ((inode.nodeFields k).mode = idata.mode ↔
          idata.mode &&& (if specialMode idata.mode then 0o7777 else 0o7000) = 0) := by
  obtain ⟨g, offset, b, n', typ, hlocate, -, -, hchosen, rfl⟩ := iget_loaded hd hfresh hrun
  exact ⟨g, offset, hlocate, hchosen.carriesRecord hk, hchosen.mode_eq_iff hk _⟩

/-- A small device on which the twelfth inode has a mode and one link. -/
def modeDisk (low high : UInt8) : Disk := smallDisk fun
  | 6528 => low
  | 6529 => high
  | 6554 => 1
  | _ => 0

/-- A plain file with the mode 0o644. -/
theorem iget_attributes_faithful_iff_plain :
    let env := diskKernel (modeDisk 0xA4 0x81) fun ino => .fresh ino 0
    ∃ inode, ((smallExt2.iget 12).run env []).1 = .done inode ∧
      CarriesRecord linuxSpecialInodes inode
        (Ext2DiskInode.decode ((modeDisk 0xA4 0x81).tail 6528)) ∧
      (inode.nodeFields linuxSpecialInodes).mode =
        (Ext2DiskInode.decode ((modeDisk 0xA4 0x81).tail 6528)).mode := by
  intro env
  obtain ⟨inode, hrun⟩ : ∃ inode, ((smallExt2.iget 12).run env []).1 = .done inode :=
    ⟨_, by with_unfolding_all rfl⟩
  obtain ⟨g, offset, hlocate, hcarries, hmode⟩ :=
    iget_attributes_faithful_iff linuxSpecialInodes_linux (diskKernel_reads _ _).readsPages rfl hrun
  obtain ⟨rfl, rfl⟩ : g = ⟨3, 4, 5⟩ ∧ offset = 11 := by
    have hsame : smallExt2.locate 12 = .ok (⟨3, 4, 5⟩, 11) := by decide
    rw [hsame] at hlocate
    cases hlocate
    exact ⟨rfl, rfl⟩
  exact ⟨inode, hrun, hcarries, hmode.mpr (by decide)⟩

/-- A file with the mode 0o4755 on an accepted device loses its setuid bit. -/
theorem iget_drops_setuid :
    let env := diskKernel (modeDisk 0xED 0x89) fun ino => .fresh ino 0
    ((fillSuper ⟨0, 0, true⟩).run env []).1 = .done smallExt2 ∧
      (Ext2DiskInode.decode ((modeDisk 0xED 0x89).tail 6528)).mode = 0o104755 ∧
      ∃ inode, ((smallExt2.iget 12).run env []).1 = .done inode ∧
        ∀ k, (inode.nodeFields k).mode = 0o100755 := by
  exact ⟨by rfl, by decide, _, by with_unfolding_all rfl, fun _ => by with_unfolding_all rfl⟩

end Ext2Fs

end Rko
