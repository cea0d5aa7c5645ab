import Rko.DentrySplice
import Rko.Ext2BlockMap

namespace Rko

open CallProgram

namespace Ext2Fs

def FT_REG_FILE : UInt8 := 1
def FT_DIR : UInt8 := 2
def FT_CHRDEV : UInt8 := 3
def FT_BLKDEV : UInt8 := 4
def FT_FIFO : UInt8 := 5
def FT_SOCK : UInt8 := 6
def FT_SYMLINK : UInt8 := 7

def entryType (s : Ext2Fs) (fileType : UInt8) : DirEntryType :=
  if !s.hasFileType then .unknown
  else if fileType = FT_REG_FILE then .reg
  else if fileType = FT_DIR then .dir
  else if fileType = FT_SYMLINK then .lnk
  else if fileType = FT_CHRDEV then .chr
  else if fileType = FT_BLKDEV then .blk
  else if fileType = FT_FIFO then .fifo
  else if fileType = FT_SOCK then .sock
  else .unknown

def entryName (data : Slice) (off : Nat) (de : Ext2DirEntry) : List UInt8 :=
  (data.sub (off + Ext2DirEntry.size) de.nameLen.toNat).bytes

/-- The inner loop of `Ext2Fs::lookup`: the inode of the first live record called `name`. -/
def scanRecords (data : Slice) (name : List UInt8) : Nat → Nat → Except Error (Option UInt32)
  | 0, _ => .ok none
  | fuel + 1, off =>
    if off < data.len - Ext2DirEntry.size then
      match Ext2DirEntry.fromBytes data off with
      | none => .error Error.EIO
      | some de =>
        if de.recLen = 0 ∨ off + de.recLen.toNat > data.len then .ok none
        else if off + Ext2DirEntry.size + de.nameLen.toNat > data.len then .ok none
        else if de.inode ≠ 0 ∧ entryName data off de = name then .ok (some de.inode)
        else scanRecords data name fuel (off + de.recLen.toNat)
    else .ok none

/-- The outer loop of `Ext2Fs::lookup`, up to the inode number of the match. -/
def searchBlocks (s : Ext2Fs) (parent : VfsInode INodeData) (name : List UInt8) :
    Nat → Int → Prog INodeData (Option UInt32)
  | 0, _ => pure none
  | fuel + 1, pos =>
    if pos < parent.size.val then do
      let boffset ← s.offsetToBlock parent.data (pos.tdiv s.blockSize.toNat)
      if boffset = 0 then
        s.searchBlocks parent name fuel (Offset.wrap (pos + s.blockSize.toNat)).val
      else
        let b ← mappedFolio (boffset.toNat * s.blockSize.toNat)
        match ← Program.ofExcept (scanRecords b name b.len 0) with
        | some ino => pure (some ino)
        | none => s.searchBlocks parent name fuel (Offset.wrap (pos + s.blockSize.toNat)).val
    else pure none

def search (s : Ext2Fs) (parent : VfsInode INodeData) (name : List UInt8) :
    Prog INodeData (Option UInt32) :=
  s.searchBlocks parent name (parent.size.val.toNat + 1) 0

def findInode (s : Ext2Fs) (parent : VfsInode INodeData) (name : List UInt8) :
    Prog INodeData (Option (VfsInode INodeData)) := do
  match ← s.search parent name with
  | some ino => do
    let found ← s.iget ino
    pure (some found)
  | none => pure none

def lookup (s : Ext2Fs) (parent : VfsInode INodeData) (dentry : Dentry) :
    Prog INodeData (Option Ptr) := do
  let found ← s.findInode parent dentry.name
  spliceAlias dentry found

def readDirRecords (s : Ext2Fs) (data : Slice) : Nat → Nat → Int → Prog INodeData (Int × Bool)
  | 0, _, emitted => pure (emitted, false)
  | fuel + 1, off, emitted =>
    if off < data.len - Ext2DirEntry.size then
      match Ext2DirEntry.fromBytes data off with
      | none => Program.fail Error.EIO
      | some de =>
        if de.recLen = 0 ∨ off + de.recLen.toNat > data.len then pure (emitted, false)
        else if de.inode = 0 ∨ off + Ext2DirEntry.size + de.nameLen.toNat > data.len then
          s.readDirRecords data fuel (off + de.recLen.toNat) emitted
        else do
          match ← emit emitted de.recLen.toNat (entryName data off de) de.inode.toUInt64
            (s.entryType de.fileType) with
          | some emitted => s.readDirRecords data fuel (off + de.recLen.toNat) emitted
          | none => pure (emitted, true)
    else pure (emitted, false)

/-- The outer loop of `Ext2Fs::read_dir`; `emitted` is the position of the emitter. -/
def readDirBlocks (s : Ext2Fs) (inode : VfsInode INodeData) :
    Nat → Int → Int → Prog INodeData Int
  | 0, _, emitted => pure emitted
  | fuel + 1, pos, emitted =>
    if pos < inode.size.val then do
      let blockIdx := pos.tdiv s.blockSize.toNat
      let boffset ← s.offsetToBlock inode.data blockIdx
      if boffset = 0 then
        s.readDirBlocks inode fuel (Offset.wrap (pos + s.blockSize.toNat)).val emitted
      else
        let b ← mappedFolio (boffset.toNat * s.blockSize.toNat)
        let blockStart := blockIdx * s.blockSize.toNat
        let off := if pos > blockStart then (pos - blockStart).toNat else 0
        let (emitted, full) ← s.readDirRecords b b.len off emitted
        if full then pure emitted
        else s.readDirBlocks inode fuel (Offset.wrap (blockStart + s.blockSize.toNat)).val emitted
    else pure emitted

/-- `Ext2Fs::read_dir` from the position of the emitter; the result is its new position. -/
def readDir (s : Ext2Fs) (inode : VfsInode INodeData) (pos : Int) : Prog INodeData Int :=
  s.readDirBlocks inode ((inode.size.val - pos).toNat + 1) pos pos

theorem searchBlocks_strict (s : Ext2Fs) (parent : VfsInode INodeData) (name : List UInt8)
    (fuel : Nat) (pos : Int) : FailStrict (s.searchBlocks parent name fuel pos) := by
  induction fuel generalizing pos with
  | zero => trivial
  | succ fuel ih =>
    unfold searchBlocks
    split
    next =>
      apply (s.offsetToBlock_strict _ _).bind
      intro boffset
      split
      next => exact ih _
      next =>
        apply (mappedFolio_strict _).bind
        intro b
        cases scanRecords b name b.len 0 with
        | error e => trivial
        | ok r =>
          cases r with
          | some ino => trivial
          | none => exact ih _
    next => trivial

theorem lookup_strict (s : Ext2Fs) (parent : VfsInode INodeData) (dentry : Dentry) :
    FailStrict (s.lookup parent dentry) := by
  refine Program.Strict.bind ?_ fun found => spliceAlias_strict dentry found
  apply (s.searchBlocks_strict _ _ _ _).bind
  intro r
  cases r with
  | some ino => exact (s.iget_strict ino).bind fun _ => trivial
  | none => trivial

theorem readDirRecords_strict (s : Ext2Fs) (data : Slice) (fuel off : Nat) (emitted : Int) :
    FailStrict (s.readDirRecords data fuel off emitted) := by
  induction fuel generalizing off emitted with
  | zero => trivial
  | succ fuel ih =>
    unfold readDirRecords
    split
    next =>
      cases Ext2DirEntry.fromBytes data off with
      | none => trivial
      | some de =>
        simp only
        split
        next => trivial
        next =>
          split
          next => exact ih _ _
          next =>
            apply (emit_strict _ _ _ _ _).bind
            intro r
            cases r with
            | some emitted => exact ih _ _
            | none => trivial
    next => trivial

theorem readDir_strict (s : Ext2Fs) (inode : VfsInode INodeData) (pos : Int) :
    FailStrict (s.readDir inode pos) := by
  have hloop : ∀ fuel pos emitted, FailStrict (s.readDirBlocks inode fuel pos emitted) := by
    intro fuel
    induction fuel with
    | zero => exact fun _ _ => trivial
    | succ fuel ih =>
      intro pos emitted
      unfold readDirBlocks
      split
      next =>
        apply (s.offsetToBlock_strict _ _).bind
        intro boffset
        split
        next => exact ih _ _
        next =>
          apply (mappedFolio_strict _).bind
          intro b
          apply (s.readDirRecords_strict b _ _ _).bind
          rintro ⟨emitted, full⟩
          cases full with
          | true => trivial
          | false => exact ih _ _
      next => trivial
  exact hloop _ _ _

end Ext2Fs

end Rko
