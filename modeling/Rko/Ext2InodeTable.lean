import Rko.Ext2BlockTree
import Rko.FolioGeometry
import Rko.InodeReferences

namespace Rko

open CallProgram RangeCut

/-- An inode record is made of its 128 bytes. -/
theorem Ext2DiskInode.decode_congr {d d' : Slice} (h : ∀ i < 128, d.byte i = d'.byte i) :
    decode d = decode d' := by
  have hblock : (Vector.ofFn fun i : Fin EXT2_N_BLOCKS => d.le32 (blockOffset + 4 * i)) =
      Vector.ofFn fun i : Fin EXT2_N_BLOCKS => d'.le32 (blockOffset + 4 * i) := by
    congr 1
    funext i
    have hi : i.val < 15 := i.isLt
    exact Slice.le32_congr h (by rw [blockOffset]; omega)
  have h16 : ∀ off, off + 2 ≤ 128 → d.le16 off = d'.le16 off := fun _ hoff => Slice.le16_congr h hoff
  have h32 : ∀ off, off + 4 ≤ 128 → d.le32 off = d'.le32 off := fun _ hoff => Slice.le32_congr h hoff
  rw [decode, decode, hblock]
  simp (disch := decide) only [h16, h32]

namespace Ext2Fs

section

variable (s : Ext2Fs)

theorem inodeSize_dvd : 128 ∣ s.inodeSize.toNat := by
  obtain ⟨j, hj, hsize⟩ := s.geometry.inodeSize_pow
  rw [inodeSize, hsize]
  exact Nat.pow_dvd_pow 2 hj

/-- A block holds a whole number of inode records. -/
theorem inodesPerBlock_mul : s.inodesPerBlock.toNat * s.inodeSize.toNat = s.blockSize.toNat := by
  obtain ⟨j, -, hsize⟩ := s.geometry.inodeSize_pow
  obtain ⟨k, -, hblock⟩ := s.blockSize_pow
  have hle : 2 ^ j ≤ 2 ^ (10 + k) := by
    rw [← hsize, ← hblock]
    exact s.geometry.inodeSize_le
  have hdvd : s.inodeSize.toNat ∣ s.blockSize.toNat := by
    rw [inodeSize, hsize, hblock]
    exact Nat.pow_dvd_pow 2 ((Nat.pow_le_pow_iff_right (by decide)).mp hle)
  have hcast : s.geometry.inodeSize.toUInt32.toNat = s.inodeSize.toNat := UInt16.toNat_toUInt32 _
  rw [s.inodesPerBlock_eq, UInt32.toNat_div, hcast]
  exact Nat.div_mul_cancel hdvd

/-- The record of number `offset` in a table of inodes. -/
def recordAddress (g : Ext2Group) (offset : UInt32) : Nat :=
  g.inodeTable.toNat * s.blockSize.toNat + offset.toNat * s.inodeSize.toNat

variable {s}

/-- The block of the record and its place in the block give its address. -/
theorem inodeBlockOffset_add_start (g : Ext2Group) (offset : UInt32) :
    ∃ n : Nat, s.inodeBlockOffset g offset = ((n * s.blockSize.toNat : Nat) : Int) ∧
      n * s.blockSize.toNat + s.inodeStart offset = s.recordAddress g offset := by
  obtain ⟨q, hq⟩ : ∃ q, q = (offset / s.inodesPerBlock).toNat := ⟨_, rfl⟩
  refine ⟨g.inodeTable.toNat + q, ?_, ?_⟩
  · rw [inodeBlockOffset, ← hq]
    push_cast
    rfl
  · have hsplit : s.inodesPerBlock.toNat * q + offset.toNat % s.inodesPerBlock.toNat =
        offset.toNat := by
      rw [hq, UInt32.toNat_div]
      exact Nat.div_add_mod _ _
    have hmod : (offset % s.inodesPerBlock).toNat = offset.toNat % s.inodesPerBlock.toNat :=
      UInt32.toNat_mod _ _
    rw [inodeStart, hmod, recordAddress]
    conv_rhs => rw [← hsplit, Nat.add_mul, Nat.mul_comm s.inodesPerBlock.toNat q, Nat.mul_assoc,
      inodesPerBlock_mul]
    ring

theorem inodeStart_add_size (offset : UInt32) :
    s.inodeStart offset + s.inodeSize.toNat ≤ s.blockSize.toNat := by
  have hpos : 0 < s.inodesPerBlock.toNat :=
    Nat.pos_of_ne_zero fun h0 => s.inodesPerBlock_ne (UInt32.toNat_inj.mp h0)
  have hlt : (offset % s.inodesPerBlock).toNat + 1 ≤ s.inodesPerBlock.toNat := by
    rw [UInt32.toNat_mod]
    exact Nat.mod_lt _ hpos
  have hmul := Nat.mul_le_mul_right s.inodeSize.toNat hlt
  rw [inodesPerBlock_mul, Nat.add_mul, Nat.one_mul] at hmul
  exact hmul

theorem locate_ok {ino : UInt32} {g : Ext2Group} {offset : UInt32}
    (h : s.locate ino = .ok (g, offset)) :
    s.groups[((ino - 1) / s.inodesPerGroup).toNat]? = some g ∧
      offset = (ino - 1) % s.inodesPerGroup := by
  rw [locate] at h
  split at h
  next => cases h
  next =>
    split at h
    next => cases h
    next g' hg =>
      cases h
      exact ⟨hg, rfl⟩

end

section Reading

variable {s : Ext2Fs} {env : Kernel INodeData} {disk : Disk} {g : Ext2Group} {offset : UInt32}
  {h : History INodeData} {b : Slice}

/-- What the mapped page shows at the place of the record, up to the end of the page. -/
theorem record_byte (hd : ReadsPages env disk)
    (hread : ((mappedFolio (s.inodeBlockOffset g offset)).run env h).1 = .done b) {i : Nat}
    (hi : s.inodeStart offset + i < b.len) :
    b.byte (s.inodeStart offset + i) = disk (s.recordAddress g offset + i) := by
  obtain ⟨n, hn, haddress⟩ := s.inodeBlockOffset_add_start g offset
  rw [hn] at hread
  obtain ⟨-, -, -, hbytes⟩ := hd.mappedFolio hread
  rw [hbytes _ hi, Int.toNat_natCast, ← haddress, Nat.add_assoc]

/-- A record that is decoded is the one at its address. -/
theorem record_of_fromBytes (hd : ReadsPages env disk)
    (hread : ((mappedFolio (s.inodeBlockOffset g offset)).run env h).1 = .done b)
    {idata : Ext2DiskInode} (hfrom : Ext2DiskInode.fromBytes b (s.inodeStart offset) = some idata) :
    s.inodeStart offset + 128 ≤ b.len ∧
      idata = Ext2DiskInode.decode (disk.tail (s.recordAddress g offset)) := by
  rw [Ext2DiskInode.fromBytes, Slice.fromBytes] at hfrom
  split at hfrom
  next => cases hfrom
  next hlen =>
    split at hfrom
    next => cases hfrom
    next =>
      cases hfrom
      refine ⟨by omega, Ext2DiskInode.decode_congr fun i hi => ?_⟩
      rw [Slice.sub_byte, Disk.tail_byte]
      exact record_byte hd hread (by omega)

theorem inodeSize_ge (s : Ext2Fs) : 128 ≤ s.inodeSize.toNat := by
  obtain ⟨j, hj, hpow⟩ := s.geometry.inodeSize_pow
  rw [inodeSize, hpow]
  exact Nat.pow_le_pow_right (by decide : 0 < 2) hj

/-- With blocks that are not larger than a page, a record lies in one page. -/
theorem recordAddress_in_page (hpage : s.blockSize.toNat ≤ PAGE_SIZE) (g : Ext2Group)
    (offset : UInt32) : s.recordAddress g offset % PAGE_SIZE + 128 ≤ PAGE_SIZE := by
  obtain ⟨n, -, haddress⟩ := s.inodeBlockOffset_add_start g offset
  obtain ⟨hin, -, -⟩ := block_in_page hpage n
  have hstart := s.inodeStart_add_size offset
  have hsize := s.inodeSize_ge
  rw [← haddress, Nat.add_mod, Nat.mod_eq_of_lt (by omega : s.inodeStart _ < PAGE_SIZE),
    Nat.mod_eq_of_lt (by omega)]
  omega

/-- The record is inside the mapped page, where it is aligned and decoded. -/
theorem record_decoded (hpage : s.blockSize.toNat ≤ PAGE_SIZE) (hd : ReadsPages env disk)
    (hread : ((mappedFolio (s.inodeBlockOffset g offset)).run env h).1 = .done b) :
    s.inodeStart offset + 128 ≤ b.len ∧
      (b.sub (s.inodeStart offset) 128).bytes = span disk (s.recordAddress g offset) 128 ∧
      Ext2DiskInode.fromBytes b (s.inodeStart offset) =
        some (Ext2DiskInode.decode (disk.tail (s.recordAddress g offset))) := by
  obtain ⟨n, hn, -⟩ := s.inodeBlockOffset_add_start g offset
  obtain ⟨hin, hmod, -⟩ := block_in_page hpage n
  have hread' := hread
  rw [hn] at hread'
  obtain ⟨-, hbase, hlen, -⟩ := hd.mappedFolio hread'
  rw [Int.toNat_natCast] at hbase hlen
  have hstart := s.inodeStart_add_size offset
  have hsize := s.inodeSize_ge
  have hend : s.inodeStart offset + 128 ≤ b.len := by omega
  have halign : (b.base + s.inodeStart offset) % 4 = 0 := by
    have hdvd : 128 ∣ s.inodeStart offset := Nat.dvd_trans s.inodeSize_dvd (Nat.dvd_mul_left _ _)
    rw [hbase]
    omega
  have hbytes : ∀ i < 128, b.byte (s.inodeStart offset + i) = disk (s.recordAddress g offset + i) :=
    fun i hi => record_byte hd hread (by omega)
  refine ⟨hend, Slice.bytes_eq_span_iff.mpr hbytes, ?_⟩
  rw [Ext2DiskInode.fromBytes, Slice.fromBytes_eq_some hend halign, Option.map_some]
  exact congrArg some (Ext2DiskInode.decode_congr hbytes)

/-- A new inode is loaded from its page, or the read of the page fails. -/
theorem iget_outcome_fresh {ino : UInt32} (hlocate : s.locate ino = .ok (g, offset)) {i : UInt64}
    {sb : Ptr} (hfresh : env h (.igetLocked ino.toUInt64) = .fresh i sb) :
    let read := ((mappedFolio (s.inodeBlockOffset g offset)).run env
      (h ++ [⟨.igetLocked ino.toUInt64, .fresh i sb⟩])).1
    (∃ e, read = .failed e ∧ ((s.iget ino).run env h).1 = .failed e) ∨
      ∃ b, read = .done b ∧
        ((s.iget ino).run env h).1 = .ofExcept (s.decodeInode (.new i sb) offset b) := by
  intro read
  have hload : ((s.iget ino).run env h).1 = ((s.loadInode (.new i sb) g offset).run env
      (h ++ [⟨.igetLocked ino.toUInt64, .fresh i sb⟩])).1 := by
    rw [iget, hlocate, Program.ofExcept_ok, Program.bind_eq, Program.done_bind]
    exact igetWith_outcome_fresh hfresh
  have hends := (mappedFolio_ensures (s.inodeBlockOffset g offset)).run env
    (h ++ [⟨.igetLocked ino.toUInt64, .fresh i sb⟩])
  rw [hload, loadInode, Program.bind_eq, Program.run_bind]
  generalize hq : (mappedFolio (s.inodeBlockOffset g offset)).run env
    (h ++ [⟨.igetLocked ino.toUInt64, .fresh i sb⟩]) = q at hends ⊢
  have hread : read = q.1 := congrArg Prod.fst hq
  obtain ⟨o, h'⟩ := q
  obtain ⟨b, rfl, -⟩ | ⟨e, rfl⟩ := hends
  · exact Or.inr ⟨b, hread, Program.Returns.ofExcept env _ h'⟩
  · exact Or.inl ⟨e, hread, rfl⟩

/-- What becomes of a record that was decoded. -/
theorem decodeInode_cases {n : NewINode} {idata : Ext2DiskInode}
    (hfrom : Ext2DiskInode.fromBytes b (s.inodeStart offset) = some idata) :
    stale idata = true ∧ s.decodeInode n offset b = .error Error.ESTALE ∨
      stale idata = false ∧
        (knownType idata.mode = false ∧ s.decodeInode n offset b = .error Error.ENOENT ∨
          (idata.mode &&& 0xF000 = S_IFLNK ∧ idata.blocks = 0 ∧ (idata.size = 0 ∨
            b.len < s.inodeStart offset + Ext2DiskInode.blockOffset + idata.size.toNat)) ∧
            s.decodeInode n offset b = .error Error.EIO ∨
          ∃ n' typ size, inodeType n idata b (s.inodeStart offset) = .ok (n', typ, size) ∧
            s.decodeInode n offset b = .ok (n'.init (inodeParams idata typ size))) := by
  rw [decodeInode, hfrom]
  dsimp only
  cases hstale : stale idata with
  | true => exact Or.inl ⟨rfl, rfl⟩
  | false =>
    refine Or.inr ⟨rfl, ?_⟩
    cases htype : inodeType n idata b (s.inodeStart offset) with
    | error e =>
      obtain ⟨hunknown, rfl⟩ | ⟨hlink, rfl⟩ := inodeType_error htype
      · exact Or.inl ⟨hunknown, rfl⟩
      · exact Or.inr (Or.inl ⟨hlink, rfl⟩)
    | ok r => exact Or.inr (Or.inr ⟨r.1, r.2.1, r.2.2, rfl, rfl⟩)

/-- With blocks that are not larger than a page, the record of every inode number that passes the
checks lies in one page, and a new inode is made from its 128 bytes on the device. `iget` fails with
the error of the read of the page, or it finds the record in the mapped page, aligned, and decodes
it; then it fails only as the record tells it to: with ESTALE for an inode that is not in use, with
ENOENT for an unknown type, and with EIO for a fast symbolic link without a target in the page. -/
theorem iget_decodes_record (hpage : s.blockSize.toNat ≤ PAGE_SIZE) {ino : UInt32}
    (hlocate : s.locate ino = .ok (g, offset)) (hd : ReadsPages env disk) {i : UInt64} {sb : Ptr}
    (hfresh : env h (.igetLocked ino.toUInt64) = .fresh i sb) :
    let k := ((ino - 1) % s.inodesPerGroup).toNat
    let address := g.inodeTable.toNat * s.blockSize.toNat + k * s.inodeSize.toNat
    let idata := Ext2DiskInode.decode (disk.tail address)
    let start := s.inodeStart offset
    let read := ((mappedFolio (s.inodeBlockOffset g offset)).run env
      (h ++ [⟨.igetLocked ino.toUInt64, .fresh i sb⟩])).1
    let outcome := ((s.iget ino).run env h).1
    s.groups[((ino - 1) / s.inodesPerGroup).toNat]? = some g ∧
      address % PAGE_SIZE + 128 ≤ PAGE_SIZE ∧
      ((∃ e, read = .failed e ∧ outcome = .failed e) ∨
        ∃ b, read = .done b ∧ start + 128 ≤ b.len ∧
          (b.sub start 128).bytes = span disk address 128 ∧
          Ext2DiskInode.fromBytes b start = some idata ∧
          (stale idata = true ∧ outcome = .failed Error.ESTALE ∨
            stale idata = false ∧
              (knownType idata.mode = false ∧ outcome = .failed Error.ENOENT ∨
                (idata.mode &&& 0xF000 = S_IFLNK ∧ idata.blocks = 0 ∧ (idata.size = 0 ∨
                  b.len < start + Ext2DiskInode.blockOffset + idata.size.toNat)) ∧
                  outcome = .failed Error.EIO ∨
                ∃ n typ size, inodeType (.new i sb) idata b start = .ok (n, typ, size) ∧
                  outcome = .done (n.init (inodeParams idata typ size))))) := by
  obtain ⟨hgroup, hoffset⟩ := locate_ok hlocate
  intro k address idata start read outcome
  have haddress : s.recordAddress g offset = address := by rw [recordAddress, hoffset]
  refine ⟨hgroup, haddress ▸ recordAddress_in_page hpage g offset, ?_⟩
  obtain hfailed | ⟨b, hread, higet⟩ := iget_outcome_fresh hlocate hfresh
  · exact Or.inl hfailed
  · obtain ⟨hend, hbytes, hfrom⟩ := record_decoded hpage hd hread
    rw [haddress] at hbytes hfrom
    have hof : ∀ {r}, s.decodeInode (.new i sb) offset b = r → outcome = .ofExcept r :=
      fun hr => higet.trans (congrArg Outcome.ofExcept hr)
    refine Or.inr ⟨b, hread, hend, hbytes, hfrom, ?_⟩
    obtain ⟨hstale, hr⟩ | ⟨hlive, ⟨hunknown, hr⟩ | ⟨hlink, hr⟩ | ⟨n, typ, size, htype, hr⟩⟩ :=
      decodeInode_cases (n := .new i sb) hfrom
    · exact Or.inl ⟨hstale, hof hr⟩
    · exact Or.inr ⟨hlive, Or.inl ⟨hunknown, hof hr⟩⟩
    · exact Or.inr ⟨hlive, Or.inr (Or.inl ⟨hlink, hof hr⟩)⟩
    · exact Or.inr ⟨hlive, Or.inr (Or.inr ⟨n, typ, size, htype, hof hr⟩)⟩

end Reading

/-- The twelfth inode of a small device is the fourth of the second block of its table, and its
record is that of a regular file. -/
theorem iget_decodes_record_smallExt2 :
    let disk := smallDisk fun i => UInt8.ofNat i
    let env := diskKernel disk fun ino => .fresh ino 0
    let idata := Ext2DiskInode.decode (disk.tail 6528)
    ∃ b, ∃ n : NewINode, ∃ size, ((mappedFolio (smallExt2.inodeBlockOffset ⟨3, 4, 5⟩ 11)).run env
        [⟨.igetLocked 12, .fresh 12 0⟩]).1 = .done b ∧
      smallExt2.inodeStart 11 = 384 ∧ (b.sub 384 128).bytes = span disk 6528 128 ∧
      ((smallExt2.iget 12).run env []).1 = .done (n.init (inodeParams idata .reg size)) := by
  intro disk env idata
  have hlocate : smallExt2.locate 12 = .ok (⟨3, 4, 5⟩, 11) := by decide
  have hread : ((mappedFolio (smallExt2.inodeBlockOffset ⟨3, 4, 5⟩ 11)).run env
      [⟨.igetLocked 12, .fresh 12 0⟩]).1 = .done (disk.tail 6144) :=
    mappedFolio_returns (diskKernel_reads disk _) (by decide) _
  have hmode : idata.mode = 0x8180 := by decide
  have hlive : stale idata = false := by decide
  obtain ⟨-, -, ⟨e, hfailed, -⟩ | ⟨b, hb, -, hbytes, -, ⟨hstale, -⟩ | ⟨-, ⟨hunknown, -⟩ | ⟨hlink, -⟩ |
    ⟨n, typ, size, htype, hdone⟩⟩⟩⟩ :=
    iget_decodes_record (by decide) hlocate (diskKernel_reads disk fun ino => .fresh ino 0).readsPages
      (h := []) rfl
  · cases hread.symm.trans hfailed
  · cases hlive.symm.trans hstale
  · have hknown : knownType idata.mode = true := by rw [hmode]; decide
    cases hknown.symm.trans hunknown
  · have hlnk : idata.mode &&& 0xF000 = S_IFLNK := hlink.1
    rw [hmode] at hlnk
    exact absurd hlnk (by decide)
  · have hfile : idata.mode &&& 0xF000 = 0o100000 := by rw [hmode]; decide
    have htype' : inodeType (.new 12 0) idata b 384 = .ok (n, typ, size) := htype
    rw [inodeType, if_pos hfile] at htype'
    cases htype'
    exact ⟨b, _, _, hb, by decide, hbytes, hdone⟩

end Ext2Fs

end Rko
