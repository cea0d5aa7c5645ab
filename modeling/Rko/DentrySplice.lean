import Rko.Mapper

namespace Rko

open CallProgram

/-- The unhashed dentry a lookup is asked to bind. The VFS never looks up an empty name. -/
structure Dentry where
  sb : Ptr
  name : List UInt8
  name_ne : name ≠ []
deriving DecidableEq, Repr

variable {δ : Type}

def spliceAlias (dentry : Dentry) (inode : Option (VfsInode δ)) : Prog δ (Option Ptr) := do
  let inodePtr ← match inode with
    | some aref =>
      if dentry.sb ≠ aref.sb then do
        -- the early return drops the `ARef`
        let _ ← Program.ask (KernelCall.iput aref.ino)
        Program.fail Error.EINVAL
      else pure (some aref.ino)
    | none => pure none
  let result : Ptr ← Program.ask (KernelCall.dSpliceAlias inodePtr)
  if result = 0 then pure none
  else if result.msb then Program.fail (Error.new (result.truncate 32))
  else pure (some result)

/-- What `lookup_trampoline` returns to the VFS for the outcome of `lookup`. -/
def lookupTrampoline : Outcome Error (Option Ptr) → Option Ptr
  | .done (some aref) => toErrPtr (.done aref)
  | .done none => toErrPtr (.done 0)
  | .failed e => toErrPtr (.failed e)
  | .aborted => none

/-- The values `d_splice_alias` may return: null, an error pointer, or the address of a
dentry in the upper half of the address space. -/
def SpliceReturn (v : Ptr) : Prop :=
  v = 0 ∨ (∃ e : Errno, v = e.ptr) ∨ (2 ^ 63 ≤ v.toNat ∧ v.toNat < 2 ^ 64 - 4095)

/-- The one negative address that survives truncation to an `int` and negation. -/
def wrapAddress : Ptr := 0xffffffff80000000#64

theorem SpliceReturn.msb {v : Ptr} (hv : SpliceReturn v) (hne : v ≠ 0) : v.msb = true := by
  rw [BitVec.msb_eq_decide, decide_eq_true_eq]
  rcases hv with h0 | ⟨e, rfl⟩ | ⟨hlow, _⟩
  · exact absurd h0 hne
  · have hl := e.le
    rw [e.ptr_toNat]
    omega
  · exact hlow

theorem spliceAlias_run {env : Kernel δ} {dentry : Dentry} {inode : Option (VfsInode δ)}
    {h : History δ} {v : Ptr} (hsb : ∀ aref ∈ inode, dentry.sb = aref.sb)
    (hv : env h (.dSpliceAlias (inode.map (·.ino))) = v) :
    ((spliceAlias dentry inode).run env h).1 =
      if v = 0 then .done none
      else if v.msb then .failed (Error.new (v.truncate 32))
      else .done (some v) := by
  have hask : ((do
      let result : Ptr ← Program.ask (KernelCall.dSpliceAlias (inode.map (·.ino)))
      if result = 0 then pure none
      else if result.msb then Program.fail (Error.new (result.truncate 32))
      else pure (some result) : Prog δ (Option Ptr)).run env h).1 =
      if v = 0 then .done none
      else if v.msb then .failed (Error.new (v.truncate 32))
      else .done (some v) := by
    simp only [Program.bind_eq, Program.ask_bind, Program.run, hv]
    split
    · rfl
    · split <;> rfl
  cases inode with
  | none => exact hask
  | some aref =>
    have heq := hsb aref rfl
    simp only [spliceAlias, heq, ne_eq, not_true_eq_false, if_false]
    exact hask

theorem spliceAlias_strict (dentry : Dentry) (inode : Option (VfsInode δ)) :
    FailStrict (spliceAlias dentry inode) := by
  have hask : ∀ i : Option UInt64, FailStrict (δ := δ) (Program.call (.dSpliceAlias i) fun result : Ptr =>
      if result = 0 then pure none
      else if result.msb then Program.fail (Error.new (result.truncate 32))
      else pure (some result)) := fun i => call_strict (by simp) fun r => by
    split
    next => trivial
    next => split <;> trivial
  cases inode with
  | none => exact hask none
  | some aref =>
    unfold spliceAlias
    simp only
    split
    next => exact call_strict (by simp) fun _ => trivial
    next => exact hask (some aref.ino)

theorem lookupTrampoline_failed_pointer (v : Ptr) :
    lookupTrampoline (.failed (Error.new (v.truncate 32))) =
      some ((-(v.truncate 32)).signExtend 64) := rfl

theorem signExtend_neg_truncate_iff {v : Ptr} (hm : v.msb = true) :
    (-(v.truncate 32)).signExtend 64 = v ↔ v = wrapAddress := by
  have hrange := v.isLt
  have hneg : 2 ^ 63 ≤ v.toNat := by
    rw [BitVec.msb_eq_decide, decide_eq_true_eq] at hm
    exact hm
  have hv : v.toInt = (v.toNat : Int) - 2 ^ 64 := by
    rw [BitVec.toInt_eq_toNat_cond]
    split <;> omega
  constructor
  · intro heq
    have hi := congrArg BitVec.toInt heq
    rw [BitVec.toInt_signExtend_of_le (by decide), BitVec.toInt_neg, BitVec.truncate,
      BitVec.toInt_setWidth, hv] at hi
    simp only [Int.bmod_def] at hi
    apply BitVec.eq_of_toNat_eq
    rw [wrapAddress, BitVec.toNat_ofNat]
    omega
  · rintro rfl
    decide

/-- The value of `d_splice_alias` reaches the VFS unchanged exactly when it is null, or the
one address whose low half is the smallest `int`. -/
theorem lookup_returns_spliced_iff {env : Kernel δ} {search : Prog δ (Option (VfsInode δ))}
    {dentry : Dentry} {inode : Option (VfsInode δ)} {h h' : History δ} {v : Ptr}
    (hfound : search.run env h = (.done inode, h')) (hsb : ∀ aref ∈ inode, dentry.sb = aref.sb)
    (hv : env h' (.dSpliceAlias (inode.map (·.ino))) = v) (hreturn : SpliceReturn v) :
    lookupTrampoline ((search.bind (spliceAlias dentry)).run env h).1 = some v ↔
      v = 0 ∨ v = wrapAddress := by
  rw [Program.run_bind, hfound]
  simp only [spliceAlias_run hsb hv]
  by_cases h0 : v = 0
  · subst h0
    simp [lookupTrampoline, toErrPtr]
  · have hm := hreturn.msb h0
    rw [if_neg h0, if_pos hm, lookupTrampoline_failed_pointer, Option.some.injEq,
      signExtend_neg_truncate_iff hm]
    exact ⟨Or.inr, fun hh => hh.resolve_left h0⟩

def splicingKernel (v : Ptr) : Kernel Unit :=
  steadyKernel (fun _ => .null) (fun _ => .null) 0 v true

theorem lookup_returns_null_spliced :
    lookupTrampoline (((Program.done none : Prog Unit (Option (VfsInode Unit))).bind
      (spliceAlias ⟨0, [97], by decide⟩)).run (splicingKernel 0) []).1 = some 0 := by
  have hfound : (Program.done none : Prog Unit (Option (VfsInode Unit))).run
      (splicingKernel 0) [] = (.done none, []) := rfl
  exact (lookup_returns_spliced_iff hfound (by simp) rfl (Or.inl rfl)).mpr (Or.inl rfl)

/-- `ERR_PTR(-ENOMEM)` comes back as the pointer 12, and an alias at `0xffff888000000040`
as the pointer `0xffffffffffffffc0`. -/
theorem lookup_mangles_spliced_pointers :
    (SpliceReturn (Errno.mk 12 (by decide) (by decide)).ptr ∧
      lookupTrampoline (((Program.done none : Prog Unit (Option (VfsInode Unit))).bind
        (spliceAlias ⟨0, [97], by decide⟩)).run
          (splicingKernel (Errno.mk 12 (by decide) (by decide)).ptr) []).1 = some 12 ∧
      (Errno.mk 12 (by decide) (by decide)).ptr ≠ 12 ∧ isErr 12 = false) ∧
    SpliceReturn 0xffff888000000040#64 ∧
      lookupTrampoline (((Program.done none : Prog Unit (Option (VfsInode Unit))).bind
        (spliceAlias ⟨0, [97], by decide⟩)).run (splicingKernel 0xffff888000000040#64) []).1 =
          some 0xffffffffffffffc0#64 := by
  refine ⟨⟨Or.inr (Or.inl ⟨_, rfl⟩), by decide, by decide, by decide⟩, Or.inr (Or.inr ?_), by decide⟩
  decide

end Rko
