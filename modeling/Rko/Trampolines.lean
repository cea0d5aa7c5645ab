import Rko.Ext2Directory
import Rko.Tarfs

namespace Rko

open CallProgram

variable {δ α : Type}

def rootTryNew (inode : VfsInode δ) : Prog δ Unit :=
  .call (.dMakeRoot inode.ino) fun
    | true => .done ()
    | false => .fail Error.ENOMEM

theorem rootTryNew_strict (inode : VfsInode δ) : FailStrict (rootTryNew inode) :=
  call_strict (by simp) fun r => by cases r <;> trivial

/-- What `fill_super_callback` runs for ext2: `fill_super`, then `init_root`. -/
def Ext2Fs.mount (sb : SuperBlock) : Prog INodeData Unit := do
  let s ← Ext2Fs.fillSuper sb
  let inode ← s.iget EXT2_ROOT_INO
  rootTryNew inode

def TarFs.mount : Prog TarFs.InodeData Unit := do
  let data ← TarFs.fillSuper
  let inode ← TarFs.iget data 1
  rootTryNew inode

inductive Reply
  | int (v : CInt)
  | ptr (p : Ptr)
deriving DecidableEq, Repr

/-- `fill_super_callback`, `iterate_shared_trampoline`, `read_folio_trampoline` and
`iomap_begin_trampoline` all return 0 or the errno of the error. -/
def intReply (r : Outcome Error α × History δ) : Option Reply × History δ :=
  match r with
  | (.done _, h) => ((fromResult (.done ())).map .int, h)
  | (.failed e, h) => ((fromResult (.failed e)).map .int, h)
  | (.aborted, h) => (none, h)

def ptrReply (r : Outcome Error (Option Ptr) × History δ) : Option Reply × History δ :=
  ((lookupTrampoline r.1).map .ptr, r.2)

inductive Ext2Call
  | fillSuper (sb : SuperBlock)
  | lookup (s : Ext2Fs) (parent : VfsInode INodeData) (dentry : Dentry)
  | iterateShared (s : Ext2Fs) (inode : VfsInode INodeData) (pos : Int)
  | iomapBegin (s : Ext2Fs) (sb : SuperBlock) (inode : VfsInode INodeData) (pos length : Int)
    (map : IoMap)

inductive TarFsCall
  | fillSuper
  | lookup (data : TarFsData) (parent : VfsInode TarFs.InodeData) (dentry : Dentry)
  | iterateShared (data : TarFsData) (inode : VfsInode TarFs.InodeData) (pos : Int)
  | readFolio (inode : VfsInode TarFs.InodeData) (folio : LockedFolio)

def Ext2Call.run (env : Kernel INodeData) : Ext2Call → Option Reply × History INodeData
  | fillSuper sb => intReply ((Ext2Fs.mount sb).run env [])
  | lookup s parent dentry => ptrReply ((s.lookup parent dentry).run env [])
  | iterateShared s inode pos => intReply ((s.readDir inode pos).run env [])
  | iomapBegin s sb inode pos length map => intReply ((s.iomapBegin sb inode pos length map).run env [])

def TarFsCall.run (env : Kernel TarFs.InodeData) : TarFsCall → Option Reply × History TarFs.InodeData
  | fillSuper => intReply (TarFs.mount.run env [])
  | lookup data parent dentry => ptrReply ((TarFs.lookup data parent dentry).run env [])
  | iterateShared data inode pos => intReply ((TarFs.readDir data inode pos).run env [])
  | readFolio inode folio => intReply ((TarFs.readFolio inode folio).run env [])

/-- The reply by which C code reports `e`: `-e`, or `ERR_PTR(-e)` where a pointer is due. -/
def errorReply (e : Errno) (pointer : Bool) : Reply := if pointer then .ptr e.ptr else .int e.int

/-- The reply with the wrong sign: `e` itself, as an `int` or as an address. -/
def positiveReply (e : Errno) (pointer : Bool) : Reply :=
  if pointer then .ptr (BitVec.ofNat 64 e.num) else .int (BitVec.ofNat 32 e.num)

def Ext2Call.pointer : Ext2Call → Bool
  | lookup _ _ _ => true
  | _ => false

def TarFsCall.pointer : TarFsCall → Bool
  | lookup _ _ _ => true
  | _ => false

def Reply.isFailure : Reply → Bool
  | int v => decide (v.toInt < 0)
  | ptr p => isErr p

theorem positiveReply_not_failure (e : Errno) (pointer : Bool) :
    (positiveReply e pointer).isFailure = false := by
  have hp := e.pos
  have hl := e.le
  cases pointer with
  | true =>
    simp only [positiveReply, if_true, Reply.isFailure, isErr, BitVec.toNat_ofNat, decide_eq_false_iff_not]
    omega
  | false =>
    simp only [positiveReply, Bool.false_eq_true, if_false, Reply.isFailure, e.ofNat_toInt,
      decide_eq_false_iff_not]
    omega

theorem Ext2Fs.mount_strict (sb : SuperBlock) : FailStrict (Ext2Fs.mount sb) :=
  (Ext2Fs.fillSuper_strict sb).bind fun s =>
    (s.iget_strict EXT2_ROOT_INO).bind fun inode => rootTryNew_strict inode

theorem TarFs.mount_strict : FailStrict TarFs.mount :=
  TarFs.fillSuper_strict.bind fun data =>
    (TarFs.iget_strict data 1).bind fun inode => rootTryNew_strict inode

theorem run_failed_of_read {p : Prog δ α} (hp : FailStrict p) {env : Kernel δ} {i : Nat} {e : Errno}
    (hev : ⟨.readCacheFolio i, FolioResult.failed e⟩ ∈ (p.run env []).2) :
    (p.run env []).1 = .failed (Error.new e.int) := by
  rcases hp.run env [] hev (e := Error.new e.int) rfl with hmem | hend
  · simp at hmem
  · exact hend

theorem intReply_of_read {p : Prog δ α} (hp : FailStrict p) {env : Kernel δ} {i : Nat} {e : Errno}
    (hev : ⟨.readCacheFolio i, FolioResult.failed e⟩ ∈ (intReply (p.run env [])).2) :
    (intReply (p.run env [])).1 = some (positiveReply e false) := by
  have hsnd : (intReply (p.run env [])).2 = (p.run env []).2 := by
    unfold intReply
    split <;> simp_all
  have hfail := run_failed_of_read hp (hsnd ▸ hev)
  unfold intReply
  split
  next h _ heq => simp [heq] at hfail
  next e' h heq =>
    simp only [heq, Outcome.failed.injEq] at hfail
    simp [hfail, fromResult, Error.new_int, positiveReply]
  next h heq => simp [heq] at hfail

theorem ptrReply_of_read {p : Prog δ (Option Ptr)} (hp : FailStrict p) {env : Kernel δ} {i : Nat}
    {e : Errno} (hev : ⟨.readCacheFolio i, FolioResult.failed e⟩ ∈ (ptrReply (p.run env [])).2) :
    (ptrReply (p.run env [])).1 = some (positiveReply e true) := by
  have hfail := run_failed_of_read hp hev
  have hext : (BitVec.ofNat 32 e.num).signExtend 64 = BitVec.ofNat 64 e.num := by
    have hl := e.le
    apply BitVec.eq_of_toInt_eq
    rw [BitVec.toInt_signExtend_of_le (by decide), e.ofNat_toInt, BitVec.toInt_eq_toNat_cond,
      BitVec.toNat_ofNat]
    split <;> omega
  simp [ptrReply, hfail, lookupTrampoline, toErrPtr, errPtr, Error.new_int, hext, positiveReply]

theorem Ext2Call.reply_of_read {call : Ext2Call} {env : Kernel INodeData} {i : Nat} {e : Errno}
    (hev : ⟨.readCacheFolio i, FolioResult.failed e⟩ ∈ (call.run env).2) :
    (call.run env).1 = some (positiveReply e call.pointer) := by
  cases call with
  | fillSuper sb => exact intReply_of_read (Ext2Fs.mount_strict sb) hev
  | lookup s parent dentry => exact ptrReply_of_read (s.lookup_strict parent dentry) hev
  | iterateShared s inode pos => exact intReply_of_read (s.readDir_strict inode pos) hev
  | iomapBegin s sb inode pos length map =>
    exact intReply_of_read (s.iomapBegin_strict sb inode pos length map) hev

theorem TarFsCall.reply_of_read {call : TarFsCall} {env : Kernel TarFs.InodeData} {i : Nat} {e : Errno}
    (hev : ⟨.readCacheFolio i, FolioResult.failed e⟩ ∈ (call.run env).2) :
    (call.run env).1 = some (positiveReply e call.pointer) := by
  cases call with
  | fillSuper => exact intReply_of_read TarFs.mount_strict hev
  | lookup data parent dentry => exact ptrReply_of_read (TarFs.lookup_strict data parent dentry) hev
  | iterateShared data inode pos => exact intReply_of_read (TarFs.readDir_strict data inode pos) hev
  | readFolio inode folio => exact intReply_of_read (TarFs.readFolio_strict inode folio) hev

theorem positiveReply_wrong {reply : Option Reply} {e : Errno} {pointer : Bool}
    (h : reply = some (positiveReply e pointer)) :
    reply ≠ some (errorReply e pointer) ∧ ∀ r, reply = some r → r.isFailure = false := by
  subst h
  have hpos := positiveReply_not_failure e pointer
  refine ⟨fun heq => ?_, fun r hr => ?_⟩
  · rw [Option.some.inj heq] at hpos
    have hp := e.pos
    cases pointer with
    | true => simp [errorReply, Reply.isFailure, e.isErr_ptr] at hpos
    | false =>
      simp only [errorReply, Bool.false_eq_true, if_false, Reply.isFailure, e.int_toInt,
        decide_eq_false_iff_not] at hpos
      omega
  · rw [← Option.some.inj hr]
    exact hpos

/-- A failed block read with error `e` reaches the VFS as `+e` on every path of both file systems,
so C never takes it for a failure. -/
theorem vfs_reply_of_read_failure (call : Ext2Call) (env : Kernel INodeData) (tarCall : TarFsCall)
    (tarEnv : Kernel TarFs.InodeData) (i : Nat) (e : Errno) :
    (⟨.readCacheFolio i, FolioResult.failed e⟩ ∈ (call.run env).2 →
      (call.run env).1 ≠ some (errorReply e call.pointer) ∧
        ∀ r, (call.run env).1 = some r → r.isFailure = false) ∧
    (⟨.readCacheFolio i, FolioResult.failed e⟩ ∈ (tarCall.run tarEnv).2 →
      (tarCall.run tarEnv).1 ≠ some (errorReply e tarCall.pointer) ∧
        ∀ r, (tarCall.run tarEnv).1 = some r → r.isFailure = false) :=
  ⟨fun hev => positiveReply_wrong (Ext2Call.reply_of_read hev),
    fun hev => positiveReply_wrong (TarFsCall.reply_of_read hev)⟩

def brokenKernel : Kernel δ :=
  steadyKernel (fun _ => .failed ⟨5, by decide, by decide⟩) (fun _ => .null) 2048 0 true

theorem vfs_reply_of_broken_mount :
    ((Ext2Call.fillSuper ⟨0, 0, true⟩).run brokenKernel).1 ≠
      some (errorReply ⟨5, by decide, by decide⟩ false) :=
  ((vfs_reply_of_read_failure (.fillSuper ⟨0, 0, true⟩) brokenKernel .fillSuper brokenKernel 0
    ⟨5, by decide, by decide⟩).1 (List.Mem.tail _ (List.Mem.head _))).1

/-- Mounting ext2 from a device that fails with `EIO` returns 5 and not -5, so the mount looks
as if it had succeeded with a positive value. -/
theorem mount_returns_positive_errno :
    (⟨.readCacheFolio 0, FolioResult.failed ⟨5, by decide, by decide⟩⟩ : Event _ _) ∈
        ((Ext2Call.fillSuper ⟨0, 0, true⟩).run brokenKernel).2 ∧
      ((Ext2Call.fillSuper ⟨0, 0, true⟩).run brokenKernel).1 = some (.int 5) ∧
      ((Ext2Call.fillSuper ⟨0, 0, true⟩).run brokenKernel).1 ≠
        some (errorReply ⟨5, by decide, by decide⟩ false) := by
  refine ⟨List.Mem.tail _ (List.Mem.head _), by decide, by decide⟩

end Rko
