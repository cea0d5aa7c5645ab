import Rko.Errno
import Rko.PageMemory

namespace Rko

open CallProgram

/-- What `read_cache_folio` returns: an `ERR_PTR`, a null pointer or a folio. -/
inductive FolioResult
  | failed (e : Errno)
  | null
  | folio (f : Folio)

inductive DirEntryType
  | unknown | fifo | chr | dir | blk | reg | lnk | sock | wht
deriving DecidableEq, Repr

inductive InodeOps
  | unset | dir | reg | simpleSymlink | pageSymlink
deriving DecidableEq, Repr

inductive FileOps
  | unset | dir | regular
deriving DecidableEq, Repr

/-- The address space operations of an inode; a new inode starts with the default table. -/
inductive AddressOps
  | default | reg | iomap
deriving DecidableEq, Repr

structure Time where
  secs : UInt64
  nsecs : UInt32
deriving DecidableEq, Repr

/-- A call of `init_special_inode`: the mode, and for a device file the numbers given to `MKDEV`. -/
structure SpecialInit where
  mode : UInt16
  device : Option (UInt32 × UInt32)
deriving DecidableEq, Repr

/-- The fields of a kernel inode as `NewINode::init` writes them, and its per-inode data. What the
kernel makes of a special inode is not written here. -/
structure VfsInode (δ : Type) where
  ino : UInt64
  sb : Ptr
  mode : UInt16
  size : Offset
  blocks : UInt64
  atime : Time
  mtime : Time
  ctime : Time
  nlink : UInt32
  uid : UInt32
  gid : UInt32
  iop : InodeOps
  fop : FileOps
  aops : AddressOps
  largeFolios : Bool
  link : Option Slice
  special : Option SpecialInit
  data : δ

/-- What `iget_locked` returns; a fresh inode has `I_NEW` set and is still uninitialised. -/
inductive LockedInode (δ : Type)
  | null
  | cached (inode : VfsInode δ)
  | fresh (ino : UInt64) (sb : Ptr)

inductive KernelCall
  | readCacheFolio (index : Nat)
  | sbMinBlocksize (size : CInt)
  | bdevNrSectors
  | alloc
  | igetLocked (ino : UInt64)
  | igetFailed (ino : UInt64)
  | iput (ino : UInt64)
  | dSpliceAlias (inode : Option UInt64)
  | dMakeRoot (ino : UInt64)
  | dirEmit (pos : Int) (name : List UInt8) (ino : UInt64) (etype : DirEntryType)
deriving DecidableEq, Repr

abbrev KernelCall.Resp (δ : Type) : KernelCall → Type
  | readCacheFolio _ => FolioResult
  | sbMinBlocksize _ => CInt
  | bdevNrSectors => UInt64
  | alloc => Bool
  | igetLocked _ => LockedInode δ
  | igetFailed _ => Unit
  | iput _ => Unit
  | dSpliceAlias _ => Ptr
  | dMakeRoot _ => Bool
  | dirEmit _ _ _ _ => Bool

abbrev Prog (δ α : Type) := Program KernelCall (KernelCall.Resp δ) Error α

abbrev Kernel (δ : Type) := Environment KernelCall (KernelCall.Resp δ)

abbrev History (δ : Type) := List (Event KernelCall (KernelCall.Resp δ))

/-- Every page read succeeds and gives the page of `disk`, in a folio of its own. -/
def ReadsDisk {δ : Type} (env : Kernel δ) (disk : Disk) : Prop :=
  ∀ h index, env h (.readCacheFolio index) = FolioResult.folio (disk.page index)

def steadyKernel {δ : Type} (reads : Nat → FolioResult) (inodes : UInt64 → LockedInode δ)
    (sectors : UInt64) (splice : Ptr) (emits : Bool) : Kernel δ
  | _, .readCacheFolio index => reads index
  | _, .sbMinBlocksize size => size
  | _, .bdevNrSectors => sectors
  | _, .alloc => true
  | _, .igetLocked ino => inodes ino
  | _, .igetFailed _ => ()
  | _, .iput _ => ()
  | _, .dSpliceAlias _ => splice
  | _, .dMakeRoot _ => true
  | _, .dirEmit _ _ _ _ => emits

def readFailure {δ : Type} : (op : KernelCall) → op.Resp δ → Option Errno
  | .readCacheFolio _, .failed e => some e
  | _, _ => none

def allocate {δ : Type} : Prog δ Unit :=
  .call .alloc fun
    | true => .done ()
    | false => .fail Error.ENOMEM

/-- `DirEmitter::emit` at position `pos`: the new position, if the entry was accepted. -/
def emit {δ : Type} (pos posInc : Int) (name : List UInt8) (ino : UInt64) (etype : DirEntryType) :
    Prog δ (Option Int) := do
  let ok : Bool ← Program.ask (KernelCall.dirEmit pos name ino etype)
  if ok then pure (some (Offset.wrap (pos + posInc)).val) else pure none

end Rko
