import Rko.InodeInit

namespace Rko

def EXT2_SUPER_MAGIC : UInt16 := 0xEF53
def EXT2_MAX_BLOCK_LOG_SIZE : UInt32 := 16
def EXT2_GOOD_OLD_REV : UInt32 := 0
def EXT2_DYNAMIC_REV : UInt32 := 1
def EXT2_GOOD_OLD_INODE_SIZE : UInt16 := 128
def EXT2_ROOT_INO : UInt32 := 2
def EXT2_GOOD_OLD_FIRST_INO : UInt32 := 11
def EXT2_FEATURE_INCOMPAT_FILETYPE : UInt32 := 0x0002

def EXT2_NDIR_BLOCKS : Nat := 12
def EXT2_IND_BLOCK : Nat := EXT2_NDIR_BLOCKS
def EXT2_DIND_BLOCK : Nat := EXT2_IND_BLOCK + 1
def EXT2_TIND_BLOCK : Nat := EXT2_DIND_BLOCK + 1
def EXT2_N_BLOCKS : Nat := EXT2_TIND_BLOCK + 1

def SB_OFFSET : Int := 1024

/-- The fields of the superblock that are read. -/
structure Ext2Super where
  inodesCount : UInt32
  blocksCount : UInt32
  firstDataBlock : UInt32
  logBlockSize : UInt32
  blocksPerGroup : UInt32
  inodesPerGroup : UInt32
  magic : UInt16
  revLevel : UInt32
  firstIno : UInt32
  inodeSize : UInt16
  featureIncompat : UInt32
  featureRoCompat : UInt32
deriving DecidableEq, Repr

def Ext2Super.decode (d : Slice) : Ext2Super where
  inodesCount := d.le32 0
  blocksCount := d.le32 4
  firstDataBlock := d.le32 20
  logBlockSize := d.le32 24
  blocksPerGroup := d.le32 32
  inodesPerGroup := d.le32 40
  magic := d.le16 56
  revLevel := d.le32 76
  firstIno := d.le32 84
  inodeSize := d.le16 88
  featureIncompat := d.le32 96
  featureRoCompat := d.le32 100

def Ext2Super.fromBytes (data : Slice) (offset : Nat) : Option Ext2Super :=
  (Slice.fromBytes 1024 4 data offset).map decode

structure Ext2Group where
  blockBitmap : UInt32
  inodeBitmap : UInt32
  inodeTable : UInt32
deriving DecidableEq, Repr

def Ext2Group.decode (d : Slice) : Ext2Group := ⟨d.le32 0, d.le32 4, d.le32 8⟩

def Ext2Group.fromBytesToSlice (data : Slice) : Option (List Ext2Group) :=
  (Slice.fromBytesToSlice 32 4 data).map (List.map decode)

structure Ext2DiskInode where
  mode : UInt16
  uid : UInt16
  size : UInt32
  atime : UInt32
  ctime : UInt32
  mtime : UInt32
  dtime : UInt32
  gid : UInt16
  linksCount : UInt16
  blocks : UInt32
  block : Vector UInt32 EXT2_N_BLOCKS
  dirAcl : UInt32
  uidHigh : UInt16
  gidHigh : UInt16
deriving DecidableEq, Repr

def Ext2DiskInode.blockOffset : Nat := 40

def Ext2DiskInode.decode (d : Slice) : Ext2DiskInode where
  mode := d.le16 0
  uid := d.le16 2
  size := d.le32 4
  atime := d.le32 8
  ctime := d.le32 12
  mtime := d.le32 16
  dtime := d.le32 20
  gid := d.le16 24
  linksCount := d.le16 26
  blocks := d.le32 28
  block := Vector.ofFn fun i => d.le32 (blockOffset + 4 * i)
  dirAcl := d.le32 108
  uidHigh := d.le16 120
  gidHigh := d.le16 122

def Ext2DiskInode.fromBytes (data : Slice) (offset : Nat) : Option Ext2DiskInode :=
  (Slice.fromBytes 128 4 data offset).map decode

structure Ext2DirEntry where
  inode : UInt32
  recLen : UInt16
  nameLen : UInt8
  fileType : UInt8
deriving DecidableEq, Repr

def Ext2DirEntry.size : Nat := 8

def Ext2DirEntry.decode (d : Slice) : Ext2DirEntry :=
  ⟨d.le32 0, d.le16 4, d.byte 6, d.byte 7⟩

def Ext2DirEntry.fromBytes (data : Slice) (offset : Nat) : Option Ext2DirEntry :=
  (Slice.fromBytes size 4 data offset).map decode

theorem Ext2DirEntry.recLen_pos {de : Ext2DirEntry} (h : de.recLen ≠ 0) : 0 < de.recLen.toNat :=
  Nat.pos_of_ne_zero fun hzero => h (UInt16.toNat_inj.mp hzero)

theorem Ext2DirEntry.fromBytes_eq_some {data : Slice} {offset : Nat}
    (hlen : offset + size ≤ data.len) (halign : (data.base + offset) % 4 = 0) :
    fromBytes data offset = some (decode (data.sub offset size)) := by
  rw [fromBytes, Slice.fromBytes_eq_some hlen halign, Option.map_some]

end Rko
