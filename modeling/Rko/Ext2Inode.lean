import Rko.Ext2Mount

namespace Rko

open CallProgram

/-- `decode_dev`: the old 16-bit form in the first pointer, else the new form in the second. -/
def decodeDev (block : Vector UInt32 EXT2_N_BLOCKS) : UInt32 × UInt32 :=
  let v : UInt32 := block.get ⟨0, by decide⟩
  if v ≠ 0 then ((v >>> 8) &&& (255 : UInt32), v &&& (255 : UInt32))
  else
    let v : UInt32 := block.get ⟨1, by decide⟩
    ((v &&& (0xfff00 : UInt32)) >>> 8, (v &&& (0xff : UInt32)) ||| ((v >>> 12) &&& (0xfff00 : UInt32)))

namespace Ext2Fs

/-- The target of a fast symbolic link, which lies in the block array. -/
def fastTarget (b : Slice) (start nameLen : Nat) : Except Error Slice :=
  if start + nameLen > b.len ∨ nameLen = 0 then .error Error.EIO
  else .ok (b.sub start nameLen)

/-- The match of `Ext2Fs::iget` on the file type: operation tables, type and size. `start` is
the offset of the inode record in the mapped page. -/
def inodeType (n : NewINode) (idata : Ext2DiskInode) (b : Slice) (start : Nat) :
    Except Error (NewINode × INodeType × Offset) :=
  let ifmt := idata.mode &&& 0xF000
  let size := Offset.ofUInt64 idata.size.toUInt64
  if ifmt = 0o100000 then
    .ok ((n.setAops .iomap).setFops .regular, .reg,
      Offset.ofUInt64 (idata.size.toUInt64 ||| (idata.dirAcl.toUInt64 <<< 32)))
  else if ifmt = 0o040000 then
    .ok (((n.setIops .dir).setFops .dir).setAops .iomap, .dir, size)
  else if ifmt = 0o120000 then
    if idata.blocks = 0 then
      match fastTarget b (start + Ext2DiskInode.blockOffset) idata.size.toNat with
      | .ok target => .ok (n, .lnk (some target), size)
      | .error e => .error e
    else .ok (n.setAops .iomap, .lnk none, size)
  else if ifmt = 0o140000 then .ok (n, .sock, size)
  else if ifmt = 0o010000 then .ok (n, .fifo, size)
  else if ifmt = 0o020000 then
    .ok (n, .chr (decodeDev idata.block).1 (decodeDev idata.block).2, size)
  else if ifmt = 0o060000 then
    .ok (n, .blk (decodeDev idata.block).1 (decodeDev idata.block).2, size)
  else .error Error.ENOENT

def inodeParams (idata : Ext2DiskInode) (typ : INodeType) (size : Offset) :
    INodeParams INodeData where
  typ := typ
  mode := idata.mode &&& 0o7777
  size := size
  blocks := idata.blocks.toUInt64
  nlink := idata.linksCount.toUInt32
  uid := idata.uid.toUInt32 ||| (idata.uidHigh.toUInt32 <<< 16)
  gid := idata.gid.toUInt32 ||| (idata.gidHigh.toUInt32 <<< 16)
  ctime := ⟨idata.ctime.toUInt64, 0⟩
  mtime := ⟨idata.mtime.toUInt64, 0⟩
  atime := ⟨idata.atime.toUInt64, 0⟩
  value := ⟨idata.block⟩

def inodeBlockOffset (s : Ext2Fs) (g : Ext2Group) (offset : UInt32) : Int :=
  (g.inodeTable.toNat + (offset / s.inodesPerBlock).toNat) * s.blockSize.toNat

def inodeStart (s : Ext2Fs) (offset : UInt32) : Nat :=
  (offset % s.inodesPerBlock).toNat * s.inodeSize.toNat

def stale (idata : Ext2DiskInode) : Bool :=
  idata.linksCount = 0 ∧ (idata.mode = 0 ∨ idata.dtime ≠ 0)

/-- What `Ext2Fs::iget` makes of the mapped page. -/
def decodeInode (s : Ext2Fs) (n : NewINode) (offset : UInt32) (b : Slice) :
    Except Error (VfsInode INodeData) :=
  match Ext2DiskInode.fromBytes b (s.inodeStart offset) with
  | none => .error Error.EIO
  | some idata =>
    if stale idata then .error Error.ESTALE
    else
      match inodeType n idata b (s.inodeStart offset) with
      | .error e => .error e
      | .ok (n, typ, size) => .ok (n.init (inodeParams idata typ size))

/-- What `Ext2Fs::iget` does with a new inode; any error drops the `NewINode`. -/
def loadInode (s : Ext2Fs) (n : NewINode) (g : Ext2Group) (offset : UInt32) :
    Prog INodeData (VfsInode INodeData) := do
  let b ← mappedFolio (s.inodeBlockOffset g offset)
  Program.ofExcept (s.decodeInode n offset b)

def locate (s : Ext2Fs) (ino : UInt32) : Except Error (Ext2Group × UInt32) :=
  if (ino ≠ EXT2_ROOT_INO ∧ ino < s.firstIno) ∨ ino > s.inodeCount then .error Error.ENOENT
  else
    match s.groups[((ino - 1) / s.inodesPerGroup).toNat]? with
    | none => .error Error.ENOENT
    | some g => .ok (g, (ino - 1) % s.inodesPerGroup)

def iget (s : Ext2Fs) (ino : UInt32) : Prog INodeData (VfsInode INodeData) := do
  let (g, offset) ← Program.ofExcept (s.locate ino)
  igetWith ino.toUInt64 fun n => s.loadInode n g offset

theorem loadInode_strict (s : Ext2Fs) (n : NewINode) (g : Ext2Group) (offset : UInt32) :
    FailStrict (s.loadInode n g offset) := by
  apply (mappedFolio_strict _).bind
  intro b
  cases s.decodeInode n offset b <;> trivial

theorem iget_strict (s : Ext2Fs) (ino : UInt32) : FailStrict (s.iget ino) := by
  unfold iget
  cases s.locate ino with
  | error e => trivial
  | ok p => exact igetWith_strict ino.toUInt64 fun n => s.loadInode_strict n p.1 p.2

end Ext2Fs

end Rko
