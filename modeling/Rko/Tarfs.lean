import Rko.DentrySplice
import Rko.InodeInit
import Rko.LockedFolio

namespace Rko

open CallProgram

def SECTOR_SIZE : UInt64 := 512
def TARFS_BSIZE : UInt64 := 4096

/-- Per-superblock data; the inode table lies inside the device. -/
structure TarFsData where
  dataSize : UInt64
  inodeTableOffset : UInt64
  inodeCount : UInt64
  table_lt : inodeTableOffset.toNat < dataSize.toNat
  table_end_le : inodeCount.toNat * 32 + inodeTableOffset.toNat ≤ dataSize.toNat
deriving DecidableEq

namespace TarFs

/-- Per-inode data: where the contents lie on the device, and the tarfs flags. -/
structure InodeData where
  offset : UInt64
  flags : UInt8
deriving DecidableEq, Repr

structure Header where
  inodeTableOffset : UInt64
  inodeCount : UInt64
deriving DecidableEq, Repr

def Header.fromBytes (data : Slice) (offset : Nat) : Option Header :=
  (Slice.fromBytes 16 8 data offset).map fun d => ⟨d.le64 0, d.le64 8⟩

structure Inode where
  mode : UInt16
  flags : UInt8
  hmtime : UInt8
  owner : UInt32
  group : UInt32
  lmtime : UInt32
  size : UInt64
  offset : UInt64
deriving DecidableEq, Repr

def Inode.decode (d : Slice) : Inode :=
  ⟨d.le16 0, d.byte 2, d.byte 3, d.le32 4, d.le32 8, d.le32 12, d.le64 16, d.le64 24⟩

def Inode.fromBytes (data : Slice) (offset : Nat) : Option Inode :=
  (Slice.fromBytes 32 8 data offset).map decode

structure DirEntry where
  ino : UInt64
  nameOffset : UInt64
  nameLen : UInt64
  etype : UInt8
deriving DecidableEq, Repr

def DirEntry.decode (d : Slice) : DirEntry := ⟨d.le64 0, d.le64 8, d.le64 16, d.byte 24⟩

def DirEntry.fromBytesToSlice (data : Slice) : Option (List DirEntry) :=
  (Slice.fromBytesToSlice 32 8 data).map (List.map decode)

def fillSuper : Prog InodeData TarFsData := do
  let scount : UInt64 ← Program.ask KernelCall.bdevNrSectors
  if scount < TARFS_BSIZE / SECTOR_SIZE then Program.fail Error.ENXIO
  else
    let accepted : CInt ← Program.ask (KernelCall.sbMinBlocksize 512)
    if accepted ≠ 512 then Program.fail Error.EIO
    else
      let mapped ← mappedFolio (Offset.ofUInt64 ((scount - 1) * SECTOR_SIZE)).val
      let hdr ← Program.ofOption Error.EIO (Header.fromBytes mapped 0)
      let dataSize := scount * SECTOR_SIZE
      allocate
      if hlt : hdr.inodeTableOffset ≥ dataSize then Program.fail Error.E2BIG
      else if 2 ^ 64 ≤ hdr.inodeCount.toNat * 32 + hdr.inodeTableOffset.toNat then
        Program.fail Error.ERANGE
      else if hle : hdr.inodeCount.toNat * 32 + hdr.inodeTableOffset.toNat > dataSize.toNat then
        Program.fail Error.E2BIG
      else
        pure
          { dataSize
            inodeTableOffset := hdr.inodeTableOffset
            inodeCount := hdr.inodeCount
            table_lt := by simpa [UInt64.le_iff_toNat_le] using hlt
            table_end_le := by omega }

/-- The match of `TarFs::iget` on the file type. -/
def inodeType (mode : UInt16) (doffset : UInt64) : Except Error INodeType :=
  let ifmt := mode &&& 0o170000
  if ifmt = S_IFREG then .ok .reg
  else if ifmt = S_IFDIR then .ok .dir
  else if ifmt = S_IFLNK then .ok (.lnk none)
  else if ifmt = S_IFSOCK then .ok .sock
  else if ifmt = S_IFIFO then .ok .fifo
  else if ifmt = S_IFCHR then .ok (.chr (doffset >>> 32).toUInt32 doffset.toUInt32)
  else if ifmt = S_IFBLK then .ok (.blk (doffset >>> 32).toUInt32 doffset.toUInt32)
  else .error Error.ENOENT

def inodeParams (idata : Inode) (typ : INodeType) : INodeParams InodeData :=
  let ts : Time := ⟨idata.lmtime.toUInt64 ||| ((idata.hmtime &&& 0xf).toUInt64 <<< 32), 0⟩
  { mode := idata.mode &&& 0o777
    typ := typ
    size := Offset.ofUInt64 idata.size
    blocks := UInt64.ofNat ((idata.size.toNat + 4095) / 4096)
    nlink := 1
    uid := idata.owner
    gid := idata.group
    ctime := ts
    mtime := ts
    atime := ts
    value := ⟨idata.offset, idata.flags⟩ }

def inodeOffset (data : TarFsData) (ino : UInt64) : Int :=
  (Offset.ofUInt64 (data.inodeTableOffset + (ino - 1) * 32)).val

def decodeInode (n : NewINode) (mapped : Slice) : Except Error (VfsInode InodeData) :=
  match Inode.fromBytes mapped 0 with
  | none => .error Error.EIO
  | some idata =>
    match inodeType idata.mode idata.offset with
    | .error e => .error e
    | .ok typ => .ok (n.init (inodeParams idata typ))

/-- What `TarFs::iget` does with a new inode; any error drops the `NewINode`. -/
def loadInode (data : TarFsData) (n : NewINode) (ino : UInt64) :
    Prog InodeData (VfsInode InodeData) := do
  let mapped ← mappedFolio (inodeOffset data ino)
  Program.ofExcept (decodeInode n mapped)

def iget (data : TarFsData) (ino : UInt64) : Prog InodeData (VfsInode InodeData) :=
  if ino = 0 ∨ ino > data.inodeCount then Program.fail Error.ENOENT
  else igetWith ino fun n => loadInode data n ino

/-- The callback of `name_eq`; the state is what is left of the name. -/
def nameEqPage (remaining : List UInt8) (page : Slice) : List UInt8 × Option Bool :=
  let len := min page.len remaining.length
  if (page.sub 0 len).bytes ≠ remaining.take len then (remaining, some false)
  else (remaining.drop len, none)

def nameEq (name : List UInt8) (offset : UInt64) : Prog InodeData Bool := do
  let (_, ret) ← forEachPage (Offset.ofUInt64 offset).val name.length
    (fun remaining page => pure (nameEqPage remaining page)) name
  pure (ret.getD true)

def lookupEntries (data : TarFsData) (name : List UInt8) :
    List DirEntry → Prog InodeData (Option (VfsInode InodeData))
  | [] => pure none
  | e :: entries => do
    if ← nameEq name e.nameOffset then
      let inode ← iget data e.ino
      pure (some inode)
    else lookupEntries data name entries

def lookup (data : TarFsData) (parent : VfsInode InodeData) (dentry : Dentry) :
    Prog InodeData (Option Ptr) := do
  let (_, found) ← forEachPage (Offset.ofUInt64 parent.data.offset).val parent.size.val
    (fun (_ : Unit) page => do
      let entries ← Program.ofOption Error.EIO (DirEntry.fromBytesToSlice page)
      let found ← lookupEntries data dentry.name entries
      pure ((), found)) ()
  spliceAlias dentry found

def copyName (nameLen : Nat) (buf : Nat × (Nat → UInt8)) (page : Slice) : Nat × (Nat → UInt8) :=
  let copyLen := min page.len (nameLen - buf.1)
  (buf.1 + copyLen,
    fun i => if buf.1 ≤ i ∧ i < buf.1 + copyLen then page.byte (i - buf.1) else buf.2 i)

def entryType (etype : UInt8) : DirEntryType :=
  if etype = 4 then .dir
  else if etype = 8 then .reg
  else if etype = 10 then .lnk
  else if etype = 2 then .chr
  else if etype = 6 then .blk
  else if etype = 1 then .fifo
  else if etype = 12 then .sock
  else .unknown

def readDirEntries : List DirEntry → Int → Prog InodeData (Int × Option Unit)
  | [], emitted => pure (emitted, none)
  | e :: entries, emitted =>
    if e.nameLen.toNat > 256 then Program.fail Error.ENAMETOOLONG
    else do
      let ((_, name), _) ← forEachPage (υ := Unit) (Offset.ofUInt64 e.nameOffset).val e.nameLen.toNat
        (fun buf page => pure (copyName e.nameLen.toNat buf page, none)) (0, fun _ => 0)
      match ← emit emitted 32 ((List.range e.nameLen.toNat).map name) e.ino (entryType e.etype) with
      | some emitted => readDirEntries entries emitted
      | none => pure (emitted, some ())

/-- `TarFs::read_dir` from the position of the emitter; the result is its new position. -/
def readDir (data : TarFsData) (inode : VfsInode InodeData) (pos : Int) : Prog InodeData Int :=
  if pos < 0 ∨ pos % 32 ≠ 0 then Program.fail Error.ENOENT
  else if pos ≥ inode.size.val then pure pos
  else if inode.data.offset.toNat + (UInt64.ofInt inode.size.val).toNat ≥ 2 ^ 64 ∨
      inode.data.offset.toNat + (UInt64.ofInt inode.size.val).toNat > data.dataSize.toNat then
    Program.fail Error.EIO
  else do
    let (emitted, _) ← forEachPage (Offset.wrap ((Offset.ofUInt64 inode.data.offset).val + pos)).val
      (inode.size.val - pos)
      (fun emitted page => do
        let entries ← Program.ofOption Error.EIO (DirEntry.fromBytesToSlice page)
        readDirEntries entries emitted) pos
    pure emitted

def copyPage (toRead : Nat) (state : Nat × LockedFolio) (page : Slice) :
    Except Error (Nat × LockedFolio) :=
  let copyLen := min page.len (toRead - state.1)
  match state.2.write state.1 (page.sub 0 copyLen) with
  | .ok folio => .ok (state.1 + copyLen, folio)
  | .error e => .error e

def readFolio (inode : VfsInode InodeData) (folio : LockedFolio) : Prog InodeData LockedFolio := do
  let folioOffset := UInt64.ofInt folio.pos
  let fileSize := UInt64.ofInt inode.size.val
  let folio ← Program.ofExcept (folio.zeroOut 0 folio.size)
  if folioOffset ≥ fileSize then pure folio
  else
    let toRead := min folio.size (fileSize - folioOffset).toNat
    let ((_, folio), _) ← forEachPage (υ := Unit)
      (Offset.ofUInt64 (inode.data.offset + folioOffset)).val toRead
      (fun state page => do
        let state ← Program.ofExcept (copyPage toRead state page)
        pure (state, none)) (0, folio)
    pure folio

theorem fillSuper_strict : FailStrict fillSuper := by
  apply (ask_strict (by simp)).bind
  intro scount
  split
  next => trivial
  next =>
    apply (ask_strict (by simp)).bind
    intro accepted
    split
    next => trivial
    next =>
      apply (mappedFolio_strict _).bind
      intro mapped
      cases Header.fromBytes mapped 0 with
      | none => trivial
      | some hdr =>
        apply allocate_strict.bind
        intro _
        split
        next => trivial
        next =>
          split
          next => trivial
          next => split <;> trivial

theorem loadInode_strict (data : TarFsData) (n : NewINode) (ino : UInt64) :
    FailStrict (loadInode data n ino) := by
  apply (mappedFolio_strict _).bind
  intro mapped
  cases decodeInode n mapped <;> trivial

theorem iget_strict (data : TarFsData) (ino : UInt64) : FailStrict (iget data ino) := by
  unfold iget
  split
  next => trivial
  next => exact igetWith_strict ino fun n => loadInode_strict data n ino

theorem nameEq_strict (name : List UInt8) (offset : UInt64) :
    FailStrict (nameEq name offset) := by
  refine Program.Strict.bind (forEachPage_strict (fun _ _ => ?_) _ _ _) fun _ => trivial
  trivial

theorem lookupEntries_strict (data : TarFsData) (name : List UInt8) (entries : List DirEntry) :
    FailStrict (lookupEntries data name entries) := by
  induction entries with
  | nil => trivial
  | cons e entries ih =>
    apply (nameEq_strict name e.nameOffset).bind
    intro found
    cases found with
    | true => exact (iget_strict data e.ino).bind fun _ => trivial
    | false => exact ih

theorem lookup_strict (data : TarFsData) (parent : VfsInode InodeData) (dentry : Dentry) :
    FailStrict (lookup data parent dentry) := by
  refine Program.Strict.bind (forEachPage_strict (fun _ page => ?_) _ _ _)
    fun found => spliceAlias_strict dentry found.2
  cases DirEntry.fromBytesToSlice page with
  | none => trivial
  | some entries => exact (lookupEntries_strict data dentry.name entries).bind fun _ => trivial

theorem readDirEntries_strict (entries : List DirEntry) (emitted : Int) :
    FailStrict (readDirEntries entries emitted) := by
  induction entries generalizing emitted with
  | nil => trivial
  | cons e entries ih =>
    unfold readDirEntries
    split
    next => trivial
    next =>
      refine Program.Strict.bind (forEachPage_strict (fun _ _ => ?_) _ _ _) ?_
      · trivial
      rintro ⟨⟨_, name⟩, _⟩
      apply (emit_strict _ _ _ _ _).bind
      intro r
      cases r with
      | some emitted => exact ih emitted
      | none => trivial

theorem readDir_strict (data : TarFsData) (inode : VfsInode InodeData) (pos : Int) :
    FailStrict (readDir data inode pos) := by
  unfold readDir
  split
  next => trivial
  next =>
    split
    next => trivial
    next =>
      split
      next => trivial
      next =>
        refine Program.Strict.bind (forEachPage_strict (fun emitted page => ?_) _ _ _)
          fun _ => trivial
        cases DirEntry.fromBytesToSlice page with
        | none => trivial
        | some entries => exact readDirEntries_strict entries emitted

theorem readFolio_strict (inode : VfsInode InodeData) (folio : LockedFolio) :
    FailStrict (readFolio inode folio) := by
  unfold readFolio
  cases folio.zeroOut 0 folio.size with
  | error e => trivial
  | ok folio =>
    simp only [Program.ofExcept_ok, Program.bind_eq, Program.done_bind]
    split
    next => trivial
    next =>
      refine Program.Strict.bind (forEachPage_strict (fun state page => ?_) _ _ _)
        fun _ => trivial
      cases copyPage _ state page <;> trivial

end TarFs

end Rko
