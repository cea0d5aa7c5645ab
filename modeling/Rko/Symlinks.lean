import Rko.Ext2Attributes
import Rko.TarfsRecords

namespace Rko

open CallProgram RangeCut

variable {δ : Type}

/-- The table has a `read_folio`; the default one has not. -/
def AddressOps.hasReadFolio : AddressOps → Bool
  | .default => false
  | .reg => true
  | .iomap => true

/-- The memory holds `target` as a C string. -/
def CString (byte : Nat → UInt8) (target : List UInt8) : Prop :=
  span byte 0 target.length = target ∧ (∀ c ∈ target, c ≠ 0) ∧ byte target.length = 0

instance (byte : Nat → UInt8) (target : List UInt8) : Decidable (CString byte target) :=
  inferInstanceAs (Decidable (_ ∧ _ ∧ _))

/-- The page behind `i_link` stays in the page cache. `iget` drops its folio when it returns, so
that `memory`, the bytes from `i_link` on at the time of a `readlink`, are still those that `iget` saw
has to be assumed. -/
def LinkKept (inode : VfsInode δ) (memory : Nat → UInt8) : Prop :=
  ∀ link, inode.link = some link → memory = link.byte

/-- What the kernel needs so that `readlink` can yield `target`: `simple_get_link` returns the C string
at `i_link`, and `page_get_link` reads the target through the operations of the mapping. -/
def LinkServed (inode : VfsInode δ) (memory : Nat → UInt8) (target : List UInt8) : Prop :=
  match inode.iop with
  | .simpleSymlink => inode.link.isSome = true ∧ CString memory target
  | .pageSymlink => inode.aops.hasReadFolio = true
  | _ => False

theorem cString_span_iff {byte f : Nat → UInt8} {o n : Nat} (h : ∀ j ≤ n, byte j = f (o + j)) :
    CString byte (span f o n) ↔ (∀ j < n, f (o + j) ≠ 0) ∧ f (o + n) = 0 := by
  have hsame : span byte 0 n = span f o n := by
    rw [span_eq_iff]
    intro j hj
    rw [Nat.zero_add]
    exact h j (by omega)
  rw [CString, span_length, h n (Nat.le_refl n)]
  constructor
  · rintro ⟨-, hne, hend⟩
    refine ⟨fun j hj => hne _ ?_, hend⟩
    exact List.mem_map.mpr ⟨j, List.mem_range.mpr hj, rfl⟩
  · rintro ⟨hne, hend⟩
    refine ⟨hsame, fun c hc => ?_, hend⟩
    obtain ⟨j, hj, rfl⟩ := List.mem_map.mp hc
    exact hne j (List.mem_range.mp hj)

namespace Ext2Fs

theorem fastTarget_ok {b : Slice} {start nameLen : Nat} {target : Slice}
    (h : fastTarget b start nameLen = .ok target) : target = b.sub start nameLen := by
  rw [fastTarget] at h
  split at h
  next => cases h
  next =>
    cases h
    rfl

/-- A link in the block array is served if its bytes have no zero and one follows; a link in data
blocks never is, as `init` does not install the operations that `iget` chose. -/
theorem TypeChosen.linkServed_iff {i : UInt64} {sb : Ptr} {n' : NewINode} {idata : Ext2DiskInode}
    {b : Slice} {start : Nat} {typ : INodeType}
    (h : TypeChosen (.new i sb) idata b start n' typ) (hlnk : idata.mode &&& 0xF000 = S_IFLNK)
    {f : Nat → UInt8} {o : Nat}
    (hbytes : idata.blocks = 0 → ∀ j ≤ idata.size.toNat,
      b.byte (start + Ext2DiskInode.blockOffset + j) = f (o + j)) (size : Offset)
    {memory : Nat → UInt8} (hkept : LinkKept (n'.init (inodeParams idata typ size)) memory) :
    LinkServed (n'.init (inodeParams idata typ size)) memory (span f o idata.size.toNat) ↔
      idata.blocks = 0 ∧ (∀ j < idata.size.toNat, f (o + j) ≠ 0) ∧ f (o + idata.size.toNat) = 0 := by
  cases h with
  | fast fmt blocks found =>
    obtain rfl := fastTarget_ok found
    have hmemory : memory = (b.sub (start + Ext2DiskInode.blockOffset) idata.size.toNat).byte :=
      hkept _ rfl
    have hstored : ∀ j ≤ idata.size.toNat, memory j = f (o + j) := by
      rw [hmemory]
      exact hbytes blocks
    have hstring := cString_span_iff hstored
    exact ⟨fun hs => ⟨blocks, hstring.mp hs.2⟩, fun hs => ⟨rfl, hstring.mpr hs.2⟩⟩
  | slow fmt blocks =>
    constructor
    · intro hserved
      cases hserved
    · intro hs
      exact absurd hs.1 blocks
  | reg fmt | dir fmt | sock fmt | fifo fmt | chr fmt | blk fmt =>
    rw [fmt] at hlnk
    exact absurd hlnk (by decide)

end Ext2Fs

namespace TarFs

theorem iget_loaded {data : TarFsData} {env : Kernel InodeData} {h : History InodeData}
    {ino i : UInt64} {sb : Ptr} (hfresh : env h (.igetLocked ino) = .fresh i sb)
    {inode : VfsInode InodeData}
    (hrun : ((iget data ino).run env h).1 = .done inode) :
    ∃ b h' idata typ, ((mappedFolio (inodeOffset data ino)).run env h').1 = .done b ∧
      Inode.fromBytes b 0 = some idata ∧ inodeType idata.mode idata.offset = .ok typ ∧
      inode = (NewINode.new i sb).init (inodeParams idata typ) := by
  rw [iget] at hrun
  split at hrun
  next => cases hrun
  next =>
    rw [igetWith_outcome_fresh hfresh] at hrun
    obtain ⟨b, h', hread, hdecode⟩ := Program.run_bind_done hrun
    have hok := Program.run_ofExcept_done hdecode
    rw [decodeInode] at hok
    split at hok
    next => cases hok
    next idata hfrom =>
      split at hok
      next => cases hok
      next typ htype =>
        cases hok
        exact ⟨b, _, idata, typ, congrArg Prod.fst hread, hfrom, htype, rfl⟩

theorem inodeType_lnk {mode : UInt16} {doffset : UInt64} {typ : INodeType}
    (h : inodeType mode doffset = .ok typ) (hlnk : mode &&& 0o170000 = S_IFLNK) : typ = .lnk none := by
  unfold inodeType at h
  simp only [hlnk] at h
  cases h
  rfl

end TarFs

/-- The target of a new symbolic link of ext2, whose page stays in the page cache, is served exactly
as stored when it lies in the block array, has no zero byte and is followed by one. A link of ext2 in data blocks or a link of tarfs is
never served: its operations read pages, but its mapping keeps the default table. -/
theorem symlink_served_iff {s : Ext2Fs} {env : Kernel INodeData} {disk : Disk}
    {h : History INodeData} {ino : UInt32} {i : UInt64} {sb : Ptr} {inode : VfsInode INodeData}
    {memory : Nat → UInt8} {data : TarFsData} {tarEnv : Kernel TarFs.InodeData}
    {tarH : History TarFs.InodeData}
    {tarIno tarI : UInt64} {tarSb : Ptr} {tarInode : VfsInode TarFs.InodeData} :
    (ReadsPages env disk → env h (.igetLocked ino.toUInt64) = .fresh i sb →
      ((s.iget ino).run env h).1 = .done inode →
      ∃ g offset, s.locate ino = .ok (g, offset) ∧
        let idata := Ext2DiskInode.decode (disk.tail (s.recordAddress g offset))
        let n := idata.size.toNat
        let stored := s.recordAddress g offset + Ext2DiskInode.blockOffset
        (idata.mode &&& 0xF000 = S_IFLNK → (idata.blocks = 0 → n ≤ 60) → LinkKept inode memory →
          (LinkServed inode memory (span disk stored n) ↔
            idata.blocks = 0 ∧ (∀ j < n, disk (stored + j) ≠ 0) ∧ disk (stored + n) = 0))) ∧
    (tarEnv tarH (.igetLocked tarIno) = .fresh tarI tarSb →
      ((TarFs.iget data tarIno).run tarEnv tarH).1 = .done tarInode →
      ∃ b h' idata, ((mappedFolio (TarFs.inodeOffset data tarIno)).run tarEnv h').1 = .done b ∧
        TarFs.Inode.fromBytes b 0 = some idata ∧
        (idata.mode &&& 0o170000 = S_IFLNK → tarInode.iop = .pageSymlink ∧
          tarInode.aops = .default ∧ ∀ memory target, ¬ LinkServed tarInode memory target)) := by
  constructor
  · intro hd hfresh hrun
    obtain ⟨g, offset, b, n', typ, hlocate, hlen, hbyte, hchosen, rfl⟩ :=
      Ext2Fs.iget_loaded hd hfresh hrun
    refine ⟨g, offset, hlocate, ?_⟩
    intro idata n stored hlnk hfast hkept
    refine hchosen.linkServed_iff hlnk ?_ _ hkept
    intro hblocks j hj
    have hn : idata.size.toNat ≤ 60 := hfast hblocks
    have hle : j ≤ idata.size.toNat := hj
    have hblock : Ext2DiskInode.blockOffset = 40 := rfl
    have hb := hbyte (Ext2DiskInode.blockOffset + j) (by omega)
    rw [← Nat.add_assoc, ← Nat.add_assoc] at hb
    exact hb
  · intro hfresh hrun
    obtain ⟨b, h', idata, typ, hread, hfrom, htype, rfl⟩ := TarFs.iget_loaded hfresh hrun
    refine ⟨b, h', idata, hread, hfrom, fun hlnk => ?_⟩
    obtain rfl := TarFs.inodeType_lnk htype hlnk
    exact ⟨rfl, rfl, fun memory target hserved => by cases hserved⟩

/-- A small device on which the twelfth inode is a symbolic link of two bytes in the block array, with
`next` in the byte after them. -/
def linkDisk (next : UInt8) : Disk := Ext2Fs.smallDisk fun
  | 6528 => 0xFF
  | 6529 => 0xA1
  | 6532 => 2
  | 6554 => 1
  | 6568 => 97
  | 6569 => 98
  | 6570 => next
  | _ => 0

/-- A device of tarfs on which the first inode is a symbolic link. -/
def tarLinkDisk : Disk := fun i =>
  if i = 32 then 0xFF else if i = 33 then 0xA1 else TarFs.smallTar 32 1 i

/-- The link of two bytes that a zero follows is served, and the one of tarfs is not. -/
theorem symlink_served_iff_twoBytes :
    (∃ inode memory, ((Ext2Fs.smallExt2.iget 12).run
        (Ext2Fs.diskKernel (linkDisk 0) fun ino => .fresh ino 0) []).1 = .done inode ∧
      LinkKept inode memory ∧ LinkServed inode memory [97, 98]) ∧
    ∃ data inode, (TarFs.fillSuper.run (TarFs.tarKernel tarLinkDisk) []).1 = .done data ∧
      ((TarFs.iget data 1).run (TarFs.tarKernel tarLinkDisk) []).1 = .done inode ∧
      ∀ memory target, ¬ LinkServed inode memory target := by
  obtain ⟨inode, memory, hrun, hkept⟩ : ∃ inode memory, ((Ext2Fs.smallExt2.iget 12).run
      (Ext2Fs.diskKernel (linkDisk 0) fun ino => .fresh ino 0) []).1 = .done inode ∧
        LinkKept inode memory :=
    ⟨_, _, by with_unfolding_all rfl, fun link hlink => by cases hlink; rfl⟩
  have hmount : (TarFs.fillSuper.run (TarFs.tarKernel tarLinkDisk) []).1 =
      .done ⟨4096, 32, 1, by decide, by decide⟩ := by decide +kernel
  obtain ⟨tarInode, htar⟩ : ∃ inode, ((TarFs.iget ⟨4096, 32, 1, by decide, by decide⟩ 1).run
      (TarFs.tarKernel tarLinkDisk) []).1 = .done inode := ⟨_, by with_unfolding_all rfl⟩
  obtain ⟨hext2, htarfs⟩ := @symlink_served_iff Ext2Fs.smallExt2
    (Ext2Fs.diskKernel (linkDisk 0) fun ino => .fresh ino 0) (linkDisk 0) [] 12 12 0 inode memory
    ⟨4096, 32, 1, by decide, by decide⟩ (TarFs.tarKernel tarLinkDisk) [] 1 1 0 tarInode
  constructor
  · obtain ⟨g, offset, hlocate, hserved⟩ :=
      hext2 (Ext2Fs.diskKernel_reads _ _).readsPages rfl hrun
    obtain ⟨rfl, rfl⟩ : g = ⟨3, 4, 5⟩ ∧ offset = 11 := by
      have hsame : Ext2Fs.smallExt2.locate 12 = .ok (⟨3, 4, 5⟩, 11) := by decide
      rw [hsame] at hlocate
      cases hlocate
      exact ⟨rfl, rfl⟩
    exact ⟨inode, memory, hrun, hkept, (hserved (by decide) (by decide) hkept).mpr (by decide)⟩
  · obtain ⟨b, h', idata, hread, hfrom, hserved⟩ := htarfs rfl htar
    have hmapped : ((mappedFolio (TarFs.inodeOffset ⟨4096, 32, 1, by decide, by decide⟩ 1)).run
        (TarFs.tarKernel tarLinkDisk) h').1 = .done ((tarLinkDisk.page 0).tail 32) := by
      with_unfolding_all rfl
    cases hread.symm.trans hmapped
    have hrecord : TarFs.Inode.fromBytes ((tarLinkDisk.page 0).tail 32) 0 =
        some ⟨0xA1FF, 0, 0, 0, 0, 0, 0, 0⟩ := by decide +kernel
    cases hfrom.symm.trans hrecord
    exact ⟨_, tarInode, hmount, htar, (hserved (by decide)).2.2⟩

/-- The link of two bytes on an accepted device is read as three. -/
theorem symlink_runs_past_end :
    let env := Ext2Fs.diskKernel (linkDisk 99) fun ino => .fresh ino 0
    ((Ext2Fs.fillSuper ⟨0, 0, true⟩).run env []).1 = .done Ext2Fs.smallExt2 ∧
      (Ext2DiskInode.decode ((linkDisk 99).tail 6528)).size = 2 ∧
      ∃ inode memory, ((Ext2Fs.smallExt2.iget 12).run env []).1 = .done inode ∧
        LinkKept inode memory ∧ LinkServed inode memory [97, 98, 99] ∧
        ¬ LinkServed inode memory [97, 98] := by
  refine ⟨by rfl, by decide, _, _, by with_unfolding_all rfl, fun link hlink => by cases hlink; rfl,
    ?_, ?_⟩
  · refine And.intro rfl ?_
    decide +kernel
  · intro hserved
    obtain ⟨-, hstring⟩ := hserved
    revert hstring
    decide +kernel

end Rko
