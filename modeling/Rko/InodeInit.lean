import Rko.Mapper

namespace Rko

open CallProgram

def S_IFSOCK : UInt16 := 0o140000
def S_IFLNK : UInt16 := 0o120000
def S_IFREG : UInt16 := 0o100000
def S_IFBLK : UInt16 := 0o060000
def S_IFDIR : UInt16 := 0o040000
def S_IFCHR : UInt16 := 0o020000
def S_IFIFO : UInt16 := 0o010000

inductive INodeType
  | dir
  | reg
  | lnk (target : Option Slice)
  | chr (major minor : UInt32)
  | blk (major minor : UInt32)
  | fifo
  | sock

def INodeType.typeBits : INodeType → UInt16
  | dir => S_IFDIR
  | reg => S_IFREG
  | lnk _ => S_IFLNK
  | chr _ _ => S_IFCHR
  | blk _ _ => S_IFBLK
  | fifo => S_IFIFO
  | sock => S_IFSOCK

def RKO_MINORMASK : UInt32 := 0xfffff

structure INodeParams (δ : Type) where
  mode : UInt16
  typ : INodeType
  size : Offset
  blocks : UInt64
  nlink : UInt32
  uid : UInt32
  gid : UInt32
  ctime : Time
  mtime : Time
  atime : Time
  value : δ

structure NewINode where
  ino : UInt64
  sb : Ptr
  customIops : Option InodeOps
  customFops : Option FileOps
  customAops : Option AddressOps
deriving DecidableEq, Repr

namespace NewINode

def new (ino : UInt64) (sb : Ptr) : NewINode := ⟨ino, sb, none, none, none⟩

def setIops (n : NewINode) (ops : InodeOps) : NewINode := { n with customIops := some ops }

def setFops (n : NewINode) (ops : FileOps) : NewINode := { n with customFops := some ops }

def setAops (n : NewINode) (ops : AddressOps) : NewINode := { n with customAops := some ops }

variable {δ : Type}

def attributes (n : NewINode) (params : INodeParams δ) : VfsInode δ where
  ino := n.ino
  sb := n.sb
  mode := (params.mode &&& 0o777) ||| params.typ.typeBits
  size := params.size
  blocks := params.blocks
  atime := params.atime
  mtime := params.mtime
  ctime := params.ctime
  nlink := params.nlink
  uid := params.uid
  gid := params.gid
  iop := .unset
  fop := .unset
  aops := .default
  largeFolios := false
  link := none
  special := none
  data := params.value

/-- `NewINode::init`. It cannot fail, and hands its reference to the caller. -/
def init (n : NewINode) (params : INodeParams δ) : VfsInode δ :=
  let inode := n.attributes params
  match params.typ with
  | .dir => { inode with
      iop := n.customIops.getD .dir
      fop := n.customFops.getD .dir }
  | .reg => { inode with
      iop := n.customIops.getD .reg
      fop := n.customFops.getD .regular
      aops := n.customAops.getD .reg
      largeFolios := true }
  | .lnk (some target) => { inode with
      iop := n.customIops.getD .simpleSymlink
      link := some target }
  | .lnk none => { inode with iop := n.customIops.getD .pageSymlink }
  | .chr major minor => { inode with
      special := some ⟨S_IFCHR, some (major, minor &&& RKO_MINORMASK)⟩ }
  | .blk major minor => { inode with
      special := some ⟨S_IFBLK, some (major, minor &&& RKO_MINORMASK)⟩ }
  | .fifo => { inode with special := some ⟨S_IFIFO, none⟩ }
  | .sock => { inode with special := some ⟨S_IFSOCK, none⟩ }

/-- Dropping a `NewINode`: `Drop::drop` calls `iget_failed`, then the drop of the field `inner`,
an `ARef`, calls `iput`. -/
def drop (n : NewINode) : Prog δ Unit := do
  let _ ← Program.ask (KernelCall.igetFailed n.ino)
  let _ ← Program.ask (KernelCall.iput n.ino)
  pure ()

@[simp] theorem init_ino (n : NewINode) (params : INodeParams δ) : (n.init params).ino = n.ino := by
  unfold init
  split <;> rfl

@[simp] theorem init_sb (n : NewINode) (params : INodeParams δ) : (n.init params).sb = n.sb := by
  unfold init
  split <;> rfl

/-- The attributes that do not depend on the type. -/
theorem init_attributes (n : NewINode) (params : INodeParams δ) :
    (n.init params).uid = params.uid ∧ (n.init params).gid = params.gid ∧
      (n.init params).nlink = params.nlink ∧ (n.init params).size = params.size ∧
      (n.init params).data = params.value := by
  unfold init
  split <;> exact ⟨rfl, rfl, rfl, rfl, rfl⟩

theorem init_mode (n : NewINode) (params : INodeParams δ) :
    (n.init params).mode = (params.mode &&& 0o777) ||| params.typ.typeBits := by
  unfold init
  split <;> rfl

theorem drop_quiet (n : NewINode) : (n.drop (δ := δ)).Quiet readError :=
  fun _ => ⟨rfl, fun _ => ⟨rfl, trivial⟩⟩

end NewINode

/-- The fields of an inode that `init_special_inode` sets. -/
structure NodeFields where
  mode : UInt16
  rdev : UInt32
deriving DecidableEq, Repr

/-- The two functions of the kernel that `init` calls for special inodes. -/
structure SpecialInodes where
  mkdev : UInt32 → UInt32 → UInt32
  initSpecialInode : NodeFields → UInt16 → UInt32 → NodeFields

/-- What they are taken to do: `MKDEV` puts the major number above the twenty bits of the minor one,
and `init_special_inode` overwrites the whole mode and gives device files their number. -/
structure SpecialInodes.Linux (k : SpecialInodes) : Prop where
  mkdev_toNat : ∀ {major minor : UInt32}, major.toNat < 2 ^ 12 → minor.toNat < 2 ^ 20 →
    (k.mkdev major minor).toNat = 2 ^ 20 * major.toNat + minor.toNat
  mode_eq : ∀ fields mode dev, (k.initSpecialInode fields mode dev).mode = mode
  rdev_eq : ∀ fields dev {mode}, mode = S_IFCHR ∨ mode = S_IFBLK →
    (k.initSpecialInode fields mode dev).rdev = dev

/-- The mode and the device number of an inode once the kernel has set it up. -/
def VfsInode.nodeFields {δ : Type} (inode : VfsInode δ) (k : SpecialInodes) : NodeFields :=
  match inode.special with
  | none => ⟨inode.mode, 0⟩
  | some call => k.initSpecialInode ⟨inode.mode, 0⟩ call.mode
      (call.device.elim 0 fun dev => k.mkdev dev.1 dev.2)

theorem VfsInode.nodeFields_rdev {δ : Type} {inode : VfsInode δ} {k : SpecialInodes} (hk : k.Linux)
    {mode : UInt16} {dev : UInt32 × UInt32} (hspecial : inode.special = some ⟨mode, some dev⟩)
    (hmode : mode = S_IFCHR ∨ mode = S_IFBLK) :
    (inode.nodeFields k).rdev = k.mkdev dev.1 dev.2 := by
  rw [nodeFields, hspecial]
  exact hk.rdev_eq _ _ hmode

inductive IgetResult (δ : Type)
  | new (n : NewINode)
  | cached (aref : VfsInode δ)

def superIget {δ : Type} (ino : UInt64) : Prog δ (IgetResult δ) :=
  .call (.igetLocked ino) fun
    | .null => .fail Error.ENOMEM
    | .cached inode => .done (.cached inode)
    | .fresh ino sb => .done (.new (.new ino sb))

theorem superIget_strict {δ : Type} (ino : UInt64) : FailStrict (superIget (δ := δ) ino) :=
  call_strict (by simp) fun r => by cases r <;> trivial

/-- What both file systems do with the result of `SuperBlock::iget`: a cached inode is returned,
a new one is filled by `load`, and dropped when that fails. -/
def igetWith {δ : Type} (ino : UInt64) (load : NewINode → Prog δ (VfsInode δ)) :
    Prog δ (VfsInode δ) := do
  match ← superIget ino with
  | .cached aref => pure aref
  | .new n => (load n).onFail n.drop

section

variable {δ : Type} {env : Kernel δ} {h : History δ} {ino : UInt64}
  {load : NewINode → Prog δ (VfsInode δ)}

theorem igetWith_run_null (ha : env h (.igetLocked ino) = .null) :
    (igetWith ino load).run env h = (.failed Error.ENOMEM, h ++ [⟨.igetLocked ino, .null⟩]) := by
  simp only [igetWith, superIget, Program.bind_eq, Program.call_bind, Program.run, ha]
  rfl

theorem igetWith_run_cached {inode : VfsInode δ} (ha : env h (.igetLocked ino) = .cached inode) :
    (igetWith ino load).run env h = (.done inode, h ++ [⟨.igetLocked ino, .cached inode⟩]) := by
  simp only [igetWith, superIget, Program.bind_eq, Program.call_bind, Program.run, ha]
  rfl

theorem igetWith_run_fresh {i : UInt64} {sb : Ptr} (ha : env h (.igetLocked ino) = .fresh i sb) :
    (igetWith ino load).run env h = ((load (.new i sb)).onFail (NewINode.new i sb).drop).run env
      (h ++ [⟨.igetLocked ino, .fresh i sb⟩]) := by
  simp only [igetWith, superIget, Program.bind_eq, Program.call_bind, Program.run, ha]
  rfl

/-- A new inode that cannot be loaded is dropped, and the error returned. -/
theorem igetWith_outcome_fresh {i : UInt64} {sb : Ptr}
    (ha : env h (.igetLocked ino) = .fresh i sb) :
    ((igetWith ino load).run env h).1 =
      ((load (.new i sb)).run env (h ++ [⟨.igetLocked ino, .fresh i sb⟩])).1 := by
  rw [igetWith_run_fresh ha, Program.run_onFail]
  generalize (load (.new i sb)).run env (h ++ [⟨.igetLocked ino, .fresh i sb⟩]) = r
  obtain ⟨o, h'⟩ := r
  cases o <;> rfl

end

theorem igetWith_strict {δ : Type} (ino : UInt64) {load : NewINode → Prog δ (VfsInode δ)}
    (hload : ∀ n, FailStrict (load n)) : FailStrict (igetWith ino load) := by
  apply (superIget_strict ino).bind
  intro r
  cases r with
  | cached aref => trivial
  | new n => exact (hload n).onFail n.drop_quiet

end Rko
