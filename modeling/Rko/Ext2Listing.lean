import Rko.Ext2Lookup
import Rko.Getdents

namespace Rko

open CallProgram PagedListing

namespace Ext2Fs

/-- The records that are emitted of the bytes from `off` to the end of the page, and the error that
ends the loop over them. -/
def liveRecords (d : Slice) : Nat → Nat → List DirRecord × Option Error
  | 0, _ => ([], none)
  | fuel + 1, off =>
    if off < d.len - Ext2DirEntry.size then
      match Ext2DirEntry.fromBytes d off with
      | none => ([], some Error.EIO)
      | some de =>
        if de.recLen = 0 ∨ off + de.recLen.toNat > d.len then ([], none)
        else if de.inode = 0 ∨ off + Ext2DirEntry.size + de.nameLen.toNat > d.len then
          liveRecords d fuel (off + de.recLen.toNat)
        else
          let rest := liveRecords d fuel (off + de.recLen.toNat)
          (⟨entryName d off de, de.inode.toUInt64, de.recLen.toNat⟩ :: rest.1, rest.2)
    else ([], none)

/-- The records that the bytes of a directory from `pos` on are taken for. -/
def liveFrom (s : Ext2Fs) (disk : Disk) (inode : VfsInode INodeData) :
    Nat → Nat → List DirRecord × Option Error
  | 0, _ => ([], none)
  | fuel + 1, pos =>
    if (pos : Int) < inode.size.val then
      if s.walkedBlock disk inode.data (pos / s.blockSize.toNat) = 0 then
        s.liveFrom disk inode fuel (pos + s.blockSize.toNat)
      else
        let d := disk.tail ((s.walkedBlock disk inode.data (pos / s.blockSize.toNat)).toNat *
          s.blockSize.toNat)
        sequel (liveRecords d d.len (pos % s.blockSize.toNat))
          (s.liveFrom disk inode fuel
            (pos / s.blockSize.toNat * s.blockSize.toNat + s.blockSize.toNat))
    else ([], none)

theorem readDirRecords_exec (s : Ext2Fs) (disk : Disk) (d : Slice) (fuel off : Nat) (emitted : Int)
    (g : Getdents) :
    (s.readDirRecords d fuel off emitted).exec (getdentsReply disk) g =
      serve (liveRecords d fuel off).2 (liveRecords d fuel off).1 emitted g := by
  induction fuel generalizing off emitted g with
  | zero => rfl
  | succ fuel ih =>
    unfold readDirRecords liveRecords
    split
    next =>
      cases Ext2DirEntry.fromBytes d off with
      | none => rfl
      | some de =>
        simp only
        split
        next => rfl
        next =>
          split
          next => exact ih _ _ _
          next =>
            simp only [emit, Program.bind_eq, Program.ask_bind, Program.call_bind,
              Program.exec_call, getdentsReply, serve, DirRecord.entry]
            by_cases hroom : g.room = 0
            · simp [hroom, Program.pure_eq]
            · simp only [hroom, if_false]
              exact ih _ _ _
    next => rfl

theorem offsetToBlock_reads (s : Ext2Fs) (idata : INodeData) (block : Int) :
    Reads (s.offsetToBlock idata block) := by
  have hclosed : ReadClosed fun _ p => Reads p :=
    ⟨fun _ => trivial, fun _ => trivial, trivial, mappedFolio_reads, fun hp hf => hp.bind hf⟩
  exact hclosed.offsetToBlock s idata block

theorem blockPage_len {s : Ext2Fs} (disk : Disk) (hbs : s.blockSize.toNat = PAGE_SIZE)
    (ptr : UInt32) : (disk.tail (ptr.toNat * s.blockSize.toNat)).len = s.blockSize.toNat := by
  rw [Disk.tail_len, hbs, Nat.mul_mod_left, Nat.sub_zero]

section Calls

variable {s : Ext2Fs} {disk : Disk} (dir : Directory s disk)

theorem Directory.offsetToBlock_exec (hpage : s.blockSize.toNat ≤ PAGE_SIZE) {j : Nat}
    (hj : j < dir.blocks) (g : Getdents) :
    (s.offsetToBlock dir.inode.data j).exec (getdentsReply disk) g =
      (.done (s.walkedBlock disk dir.inode.data j).toUInt64, g) :=
  exec_of_reads (s.offsetToBlock_reads _ _)
    (fun _ hd => offsetToBlock_returns hd hpage (block_lt_treeBlocks dir hj) dir.inode.data) g

theorem mappedBlock_exec (s : Ext2Fs) (disk : Disk) (ptr : UInt32) (g : Getdents) :
    (mappedFolio (δ := INodeData) (ptr.toNat * s.blockSize.toNat)).exec (getdentsReply disk) g =
      (.done (disk.tail (ptr.toNat * s.blockSize.toNat)), g) := by
  have hpos : (0 : Int) ≤ ptr.toNat * s.blockSize.toNat := by positivity
  have htoNat : ((ptr.toNat : Int) * s.blockSize.toNat).toNat = ptr.toNat * s.blockSize.toNat := by
    norm_cast
  rw [exec_of_reads (mappedFolio_reads _) (fun _ hd => mappedFolio_returns hd hpos), htoNat]

theorem Directory.block_lt {pos : Nat} (hpos : (pos : Int) < dir.inode.size.val) :
    pos / s.blockSize.toNat < dir.blocks := by
  rw [dir.size_eq] at hpos
  rw [Nat.div_lt_iff_lt_mul s.blockSize_pos]
  omega

/-- One call over the blocks from `pos` on emits the records that the bytes from there are taken
for. -/
theorem readDirBlocks_exec (hpage : s.blockSize.toNat ≤ PAGE_SIZE) (fuel pos : Nat)
    (emitted : Int) (g : Getdents) :
    (s.readDirBlocks dir.inode fuel pos emitted).exec (getdentsReply disk) g =
      finalPosition (serve (s.liveFrom disk dir.inode fuel pos).2
        (s.liveFrom disk dir.inode fuel pos).1 emitted g) := by
  have hbs := s.blockSize_pos
  have hlt := dir.size_lt
  induction fuel generalizing pos emitted g with
  | zero => rfl
  | succ fuel ih =>
    unfold readDirBlocks liveFrom
    split
    next hpos =>
      have hdiv : (pos : Int).tdiv s.blockSize.toNat = ((pos / s.blockSize.toNat : Nat) : Int) := rfl
      have hle := Nat.div_mul_le_self pos s.blockSize.toNat
      have hmod := Nat.div_add_mod' pos s.blockSize.toNat
      have hhole : (Offset.wrap ((pos : Int) + s.blockSize.toNat)).val =
          ((pos + s.blockSize.toNat : Nat) : Int) := by
        unfold PAGE_SIZE at hpage
        rw [Offset.wrap_val (by omega) (by omega)]
        push_cast
        rfl
      simp only [Program.bind_eq, hdiv]
      rw [Program.exec_bind_done (dir.offsetToBlock_exec hpage (dir.block_lt hpos) g)]
      by_cases hw : s.walkedBlock disk dir.inode.data (pos / s.blockSize.toNat) = 0
      · rw [if_pos (toUInt64_eq_zero.mpr hw), if_pos hw, hhole]
        exact ih _ _ _
      · rw [if_neg (mt toUInt64_eq_zero.mp hw), if_neg hw]
        have hoff : (if (pos : Int) > ((pos / s.blockSize.toNat : Nat) : Int) * s.blockSize.toNat then
            ((pos : Int) - ((pos / s.blockSize.toNat : Nat) : Int) * s.blockSize.toNat).toNat
            else 0) = pos % s.blockSize.toNat := by
          split <;> norm_cast <;> omega
        have hnext : (Offset.wrap (((pos / s.blockSize.toNat : Nat) : Int) * s.blockSize.toNat +
            s.blockSize.toNat)).val =
              ((pos / s.blockSize.toNat * s.blockSize.toNat + s.blockSize.toNat : Nat) : Int) := by
          unfold PAGE_SIZE at hpage
          rw [Offset.wrap_val (by omega) (by omega)]
          push_cast
          rfl
        rw [UInt32.toNat_toUInt64, Program.exec_bind_done (s.mappedBlock_exec disk _ g)]
        simp only [hoff, hnext]
        exact exec_sequel (s.readDirRecords_exec disk _ _ _ _ _) fun pos' g' => ih _ pos' g'
    next => rfl

theorem advance_liveRecords (d : Slice) (fuel off : Nat) :
    advance (liveRecords d fuel off).1 ≤ d.len - off := by
  induction fuel generalizing off with
  | zero => simp [liveRecords]
  | succ fuel ih =>
    unfold liveRecords
    split
    next =>
      cases Ext2DirEntry.fromBytes d off with
      | none => simp
      | some de =>
        simp only
        split
        next => simp
        next hrec =>
          rw [not_or] at hrec
          have hrest := ih (off + de.recLen.toNat)
          split
          next => omega
          next =>
            simp only [advance_cons]
            omega
    next => simp

theorem Directory.advance_liveFrom (hbs : s.blockSize.toNat = PAGE_SIZE) (fuel pos : Nat) :
    advance (s.liveFrom disk dir.inode fuel pos).1 ≤ dir.inode.size.val.toNat - pos := by
  induction fuel generalizing pos with
  | zero => simp [liveFrom]
  | succ fuel ih =>
    unfold liveFrom
    split
    next hpos =>
      split
      next =>
        have hrest := ih (pos + s.blockSize.toNat)
        omega
      next =>
        have hrest := ih (pos / s.blockSize.toNat * s.blockSize.toNat + s.blockSize.toNat)
        have hend : pos / s.blockSize.toNat * s.blockSize.toNat + s.blockSize.toNat ≤
            dir.inode.size.val.toNat := by
          have hnext := Nat.mul_le_mul_right s.blockSize.toNat (dir.block_lt hpos)
          rw [Nat.succ_mul] at hnext
          have hsize := dir.size_eq
          omega
        have hmod := Nat.div_add_mod' pos s.blockSize.toNat
        have hlt := Nat.mod_lt pos s.blockSize_pos
        have hlen := blockPage_len disk hbs
          (s.walkedBlock disk dir.inode.data (pos / s.blockSize.toNat))
        have hown := advance_liveRecords (disk.tail
          ((s.walkedBlock disk dir.inode.data (pos / s.blockSize.toNat)).toNat * s.blockSize.toNat))
          s.blockSize.toNat (pos % s.blockSize.toNat)
        simp only [hlen] at hown ⊢
        refine (advance_sequel _ _).trans ?_
        omega
    next => simp

end Calls

/-- What a call of `read_dir` from `pos` on would emit, given room for everything. -/
def scanFrom (s : Ext2Fs) (disk : Disk) (inode : VfsInode INodeData) (pos : Int) :
    Scan Int (List UInt8 × UInt64) :=
  let live := s.liveFrom disk inode ((inode.size.val - pos).toNat + 1) pos.toNat
  scanOf live.1 live.2 pos

theorem Directory.serves {s : Ext2Fs} {disk : Disk} (dir : Directory s disk)
    (hbs : s.blockSize.toNat = PAGE_SIZE) :
    Serves (readDirCall (s.readDir dir.inode) disk) (s.scanFrom disk dir.inode)
      (fun pos => 0 ≤ pos ∧ pos ≤ dir.inode.size.val) where
  call_eq := by
    rintro pos ⟨hpos, -⟩ room -
    apply readDirCall_eq
    have hexec := readDirBlocks_exec dir (Nat.le_of_eq hbs) ((dir.inode.size.val - pos).toNat + 1)
      pos.toNat pos ⟨room, []⟩
    rw [Int.toNat_of_nonneg hpos] at hexec
    exact hexec
  closed := by
    rintro pos pos' entry ⟨hpos, hle⟩ hentry
    have hadvance := dir.advance_liveFrom hbs ((dir.inode.size.val - pos).toNat + 1) pos.toNat
    have hlt := dir.size_lt
    have hbounds := positioned_bounds hpos (by omega) hentry
    omega

def Live (r : Ext2DirEntry × List UInt8) : Prop := r.1.inode ≠ 0

instance (r : Ext2DirEntry × List UInt8) : Decidable (Live r) :=
  inferInstanceAs (Decidable (r.1.inode ≠ 0))

def emitted (r : Ext2DirEntry × List UInt8) : DirRecord :=
  ⟨r.2, r.1.inode.toUInt64, r.1.recLen.toNat⟩

def liveOf (rs : List (Ext2DirEntry × List UInt8)) : List DirRecord :=
  (rs.filter Live).map emitted

/-- The live records of a directory, in the order of the disk. -/
def Directory.live {s : Ext2Fs} {disk : Disk} (dir : Directory s disk) :
    List (List UInt8 × UInt64) :=
  (liveOf dir.records).map DirRecord.entry

theorem exact_readDir_iff {s : Ext2Fs} {disk : Disk} (hbs : s.blockSize.toNat = PAGE_SIZE)
    (dir : Directory s disk) :
    Exact (readDirCall (s.readDir dir.inode) disk) 0 dir.live ↔
      ∀ k pos, ResumePoint (s.scanFrom disk dir.inode) 0 k pos →
        Continues (s.scanFrom disk dir.inode pos) (dir.live.drop k) := by
  have hsize : 0 ≤ dir.inode.size.val := by
    rw [dir.size_eq]
    positivity
  exact exact_iff_continues (dir.serves hbs) ⟨Int.le_refl 0, hsize⟩

end Ext2Fs

end Rko
