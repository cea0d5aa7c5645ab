import Rko.Ext2BlockTree
import Rko.Ext2Directory

namespace Rko

open CallProgram

namespace Ext2Fs

theorem treeBlocks_lt (s : Ext2Fs) : treeBlocks (s.blockSize.toNat / 4) < 2 ^ 43 := by
  obtain ⟨k, hk, -, hp⟩ := s.ptrs_eq
  obtain ⟨hb1, hb2, hb3⟩ := ptrs_bounds hk
  rw [hp]
  unfold treeBlocks
  omega

/-- Every index that `offsets` computes is within the array it is used for. -/
theorem offsets_bounds {s : Ext2Fs} {block : UInt64} {indices : List UInt32}
    (h : offsets s.blockSize block = some indices) :
    ∃ first path, indices = first :: path ∧ first.toNat < EXT2_N_BLOCKS ∧
      (∀ i ∈ path, i.toNat < s.blockSize.toNat / 4) ∧
      block.toNat < treeBlocks (s.blockSize.toNat / 4) := by
  obtain ⟨k, hk, hbs, hp⟩ := s.ptrs_eq
  have hoffsets := (offsets_eq_some_iff hk hbs).mp h
  rw [← hp] at hoffsets
  have hblock := blockPath_lt hoffsets
  have hpos : 0 < s.blockSize.toNat / 4 := by
    rw [hp]
    exact Nat.two_pow_pos _
  obtain ⟨first, path, hpath, hfirst, hrest⟩ := blockPath_eq_some hpos hblock
  rw [hpath] at hoffsets
  obtain ⟨i, rest, rfl, rfl, rfl⟩ := List.map_eq_cons_iff.mp (Option.some.inj hoffsets).symm
  exact ⟨i, rest, rfl, hfirst, fun j hj => hrest _ (List.mem_map_of_mem hj), hblock⟩

variable {s : Ext2Fs}

/-- A table of pointers has a whole block of them within the page it starts in. -/
theorem walkTables_ensures (hpage : s.blockSize.toNat ≤ PAGE_SIZE) {path : List UInt32}
    (hpath : ∀ i ∈ path, i.toNat < s.blockSize.toNat / 4) (ptr : UInt32) :
    (s.walkTables path ptr).Ensures fun _ => True := by
  induction path generalizing ptr with
  | nil => trivial
  | cons i path ih =>
    have hi := hpath i List.mem_cons_self
    apply (mappedFolio_ensures _).bind
    intro b hb
    have hoff : ((ptr.toNat : Int) * s.blockSize.toNat).toNat = ptr.toNat * s.blockSize.toNat := by
      norm_cast
    rw [hoff] at hb
    obtain ⟨hin, -, -⟩ := block_in_page hpage ptr.toNat
    apply (Program.ensures_ofOption _ fun _ h => h).bind
    intro table htable
    have hindex : i.toNat < table.length := by
      rw [Slice.length_of_fromBytesToSlice htable]
      omega
    rw [List.getElem?_eq_getElem hindex]
    exact ih (fun j hj => hpath j (List.mem_cons_of_mem _ hj)) _

theorem offsetToBlock_ensures (hpage : s.blockSize.toNat ≤ PAGE_SIZE) (idata : INodeData)
    (block : Int) :
    (s.offsetToBlock idata block).Ensures fun _ =>
      (UInt64.ofInt block).toNat < treeBlocks (s.blockSize.toNat / 4) := by
  apply (Program.ensures_ofOption _ fun _ h => h).bind
  intro indices hindices
  obtain ⟨first, path, rfl, hfirst, hpath, hblock⟩ := offsets_bounds hindices
  simp only
  rw [Vector.getElem?_eq_getElem hfirst]
  exact (walkTables_ensures hpage hpath _).bind fun _ _ => hblock

theorem iget_ensures (s : Ext2Fs) (ino : UInt32) : (s.iget ino).Ensures fun _ => True := by
  apply (Program.ensures_ofExcept fun _ _ => trivial).bind (Q := fun _ => True)
  intro x _ r
  cases r with
  | null => trivial
  | cached inode => trivial
  | fresh i sb =>
    refine Program.Ensures.onFail ?_ fun _ _ => trivial
    apply (mappedFolio_ensures _).bind
    intro b _
    exact Program.ensures_ofExcept fun _ _ => trivial

-- The operations with every panic of the source written out: a slice or an array indexed out of
-- range, a division by zero, and, as an abort too, a loop that is not done after the rounds it has.
-- What `offset_to_block` indexes is in the model of it already.
namespace Panicking

/-- `&data[start..start + n]`. -/
def subslice (data : Slice) (start n : Nat) : Prog INodeData Slice := do
  Program.require (start + n ≤ data.len)
  pure (data.sub start n)

def fastTarget (b : Slice) (start nameLen : Nat) : Prog INodeData Slice :=
  if start + nameLen > b.len ∨ nameLen = 0 then Program.fail Error.EIO
  else do
    Program.require (start ≤ b.len)
    pure (b.sub start nameLen)

/-- The inline symbolic link is the one branch of the match that indexes the page. -/
def inodeType (n : NewINode) (idata : Ext2DiskInode) (b : Slice) (start : Nat) :
    Prog INodeData (NewINode × INodeType × Offset) :=
  if idata.mode &&& 0xF000 = 0o120000 ∧ idata.blocks = 0 then do
    let target ← fastTarget b (start + Ext2DiskInode.blockOffset) idata.size.toNat
    pure (n, .lnk (some target), Offset.ofUInt64 idata.size.toUInt64)
  else Program.ofExcept (Ext2Fs.inodeType n idata b start)

def loadInode (s : Ext2Fs) (n : NewINode) (group : Nat) (offset : UInt32) :
    Prog INodeData (VfsInode INodeData) :=
  match s.groups[group]? with
  | none => Program.abort
  | some g => do
    Program.require (s.inodesPerBlock ≠ 0)
    let b ← mappedFolio (s.inodeBlockOffset g offset)
    let idata ← Program.ofOption Error.EIO (Ext2DiskInode.fromBytes b (s.inodeStart offset))
    if stale idata then Program.fail Error.ESTALE
    else do
      let (n, typ, size) ← inodeType n idata b (s.inodeStart offset)
      pure (n.init (inodeParams idata typ size))

def iget (s : Ext2Fs) (ino : UInt32) : Prog INodeData (VfsInode INodeData) :=
  if (ino ≠ EXT2_ROOT_INO ∧ ino < s.firstIno) ∨ ino > s.inodeCount then Program.fail Error.ENOENT
  else do
    Program.require (s.inodesPerGroup ≠ 0)
    let group := ((ino - 1) / s.inodesPerGroup).toNat
    let offset := (ino - 1) % s.inodesPerGroup
    if s.groups.length ≤ group then Program.fail Error.ENOENT
    else igetWith ino.toUInt64 fun n => loadInode s n group offset

/-- A round of the inner loop of `Ext2Fs::lookup`. -/
def scanRound (data : Slice) (name : List UInt8) (off : Nat) :
    Prog INodeData (Nat ⊕ Option UInt32) :=
  if off < data.len - Ext2DirEntry.size then do
    let de ← Program.ofOption Error.EIO (Ext2DirEntry.fromBytes data off)
    if de.recLen = 0 ∨ off + de.recLen.toNat > data.len then pure (.inr none)
    else if off + Ext2DirEntry.size + de.nameLen.toNat > data.len then pure (.inr none)
    else do
      let entry ← subslice data (off + Ext2DirEntry.size) de.nameLen.toNat
      if de.inode ≠ 0 ∧ entry.bytes = name then pure (.inr (some de.inode))
      else pure (.inl (off + de.recLen.toNat))
  else pure (.inr none)

/-- A round of the outer loop of `Ext2Fs::lookup`. -/
def searchRound (s : Ext2Fs) (parent : VfsInode INodeData) (name : List UInt8) (pos : Int) :
    Prog INodeData (Int ⊕ Option UInt32) :=
  if pos < parent.size.val then do
    Program.require (s.blockSize ≠ 0)
    let boffset ← s.offsetToBlock parent.data (pos.tdiv s.blockSize.toNat)
    if boffset = 0 then pure (.inl (Offset.wrap (pos + s.blockSize.toNat)).val)
    else do
      let b ← mappedFolio (boffset.toNat * s.blockSize.toNat)
      match ← Program.loop (scanRound b name) b.len 0 with
      | some ino => pure (.inr (some ino))
      | none => pure (.inl (Offset.wrap (pos + s.blockSize.toNat)).val)
  else pure (.inr none)

def lookup (s : Ext2Fs) (parent : VfsInode INodeData) (dentry : Dentry) :
    Prog INodeData (Option Ptr) := do
  match ← Program.loop (searchRound s parent dentry.name) (parent.size.val.toNat + 1) 0 with
  | some ino => do
    let found ← iget s ino
    spliceAlias dentry (some found)
  | none => spliceAlias dentry none

/-- A round of the inner loop of `Ext2Fs::read_dir`, with the position of the emitter. -/
def recordRound (s : Ext2Fs) (data : Slice) (x : Nat × Int) :
    Prog INodeData ((Nat × Int) ⊕ (Int × Bool)) :=
  if x.1 < data.len - Ext2DirEntry.size then do
    let de ← Program.ofOption Error.EIO (Ext2DirEntry.fromBytes data x.1)
    if de.recLen = 0 ∨ x.1 + de.recLen.toNat > data.len then pure (.inr (x.2, false))
    else if de.inode = 0 ∨ x.1 + Ext2DirEntry.size + de.nameLen.toNat > data.len then
      pure (.inl (x.1 + de.recLen.toNat, x.2))
    else do
      let entry ← subslice data (x.1 + Ext2DirEntry.size) de.nameLen.toNat
      match ← emit x.2 de.recLen.toNat entry.bytes de.inode.toUInt64 (s.entryType de.fileType) with
      | some emitted => pure (.inl (x.1 + de.recLen.toNat, emitted))
      | none => pure (.inr (x.2, true))
  else pure (.inr (x.2, false))

/-- A round of the outer loop of `Ext2Fs::read_dir`. -/
def readDirRound (s : Ext2Fs) (inode : VfsInode INodeData) (x : Int × Int) :
    Prog INodeData ((Int × Int) ⊕ Int) :=
  if x.1 < inode.size.val then do
    Program.require (s.blockSize ≠ 0)
    let blockIdx := x.1.tdiv s.blockSize.toNat
    let boffset ← s.offsetToBlock inode.data blockIdx
    if boffset = 0 then pure (.inl ((Offset.wrap (x.1 + s.blockSize.toNat)).val, x.2))
    else do
      let b ← mappedFolio (boffset.toNat * s.blockSize.toNat)
      let blockStart := blockIdx * s.blockSize.toNat
      let off := if x.1 > blockStart then (x.1 - blockStart).toNat else 0
      let (emitted, full) ← Program.loop (recordRound s b) b.len (off, x.2)
      if full then pure (.inr emitted)
      else pure (.inl ((Offset.wrap (blockStart + s.blockSize.toNat)).val, emitted))
  else pure (.inr x.2)

def readDir (s : Ext2Fs) (inode : VfsInode INodeData) (pos : Offset) : Prog INodeData Int :=
  Program.loop (readDirRound s inode) ((inode.size.val - pos.val).toNat + 1) (pos.val, pos.val)

/-- Besides what `offset_to_block` indexes, `begin` divides by the block size. -/
def iomapBegin (s : Ext2Fs) (sb : SuperBlock) (inode : VfsInode INodeData) (pos length : Offset)
    (map : IoMap) : Prog INodeData IoMap := do
  if pos.val < inode.size.val then Program.require (s.blockSize ≠ 0)
  s.iomapBegin sb inode pos.val length.val map

theorem subslice_eq {data : Slice} {start n : Nat} (h : start + n ≤ data.len) :
    subslice data start n = Program.done (data.sub start n) := by
  rw [subslice, Program.require_eq h]
  rfl

theorem inodeType_eq (n : NewINode) (idata : Ext2DiskInode) (b : Slice) (start : Nat) :
    inodeType n idata b start = Program.ofExcept (Ext2Fs.inodeType n idata b start) := by
  unfold inodeType
  split
  next hlink =>
    have hreg : ¬ (0o120000 : UInt16) = 0o100000 := by decide
    have hdir : ¬ (0o120000 : UInt16) = 0o040000 := by decide
    simp only [Ext2Fs.inodeType, hlink.1, hlink.2, if_neg hreg, if_neg hdir, if_true]
    by_cases hbound : start + Ext2DiskInode.blockOffset + idata.size.toNat > b.len ∨
        idata.size.toNat = 0
    · rw [fastTarget, Ext2Fs.fastTarget, if_pos hbound, if_pos hbound]
      rfl
    · rw [fastTarget, Ext2Fs.fastTarget, if_neg hbound, if_neg hbound,
        Program.require_eq (by omega)]
      rfl
  next => rfl

theorem loadInode_eq {s : Ext2Fs} {group : Nat} {g : Ext2Group} (hg : s.groups[group]? = some g)
    (n : NewINode) (offset : UInt32) : loadInode s n group offset = s.loadInode n g offset := by
  simp only [loadInode, hg, Program.require_eq s.inodesPerBlock_ne, Ext2Fs.loadInode,
    Program.bind_eq, Program.done_bind]
  congr 1
  funext b
  unfold decodeInode
  cases Ext2DiskInode.fromBytes b (s.inodeStart offset) with
  | none => rfl
  | some idata =>
    simp only [Program.ofOption_some, Program.done_bind]
    split
    next => rfl
    next =>
      rw [inodeType_eq]
      cases Ext2Fs.inodeType n idata b (s.inodeStart offset) <;> rfl

theorem iget_eq (s : Ext2Fs) (ino : UInt32) : iget s ino = s.iget ino := by
  unfold iget Ext2Fs.iget locate
  split
  next => rfl
  next =>
    simp only [Program.require_eq s.inodesPerGroup_ne, Program.bind_eq, Program.done_bind]
    cases hg : s.groups[((ino - 1) / s.inodesPerGroup).toNat]? with
    | none =>
      rw [if_pos (List.getElem?_eq_none_iff.mp hg)]
      rfl
    | some g =>
      obtain ⟨hlt, -⟩ := List.getElem?_eq_some_iff.mp hg
      rw [if_neg (by omega)]
      simp only [loadInode_eq hg]
      rfl

theorem records_fuel {data : Slice} (hlen : 0 < data.len) (off : Nat) :
    data.len - Ext2DirEntry.size - off < data.len := by
  have hsize : Ext2DirEntry.size = 8 := rfl
  omega

section Scan

variable {data : Slice} {name : List UInt8}

theorem scanRound_ensures (off : Nat) :
    (scanRound data name off).Ensures (Sum.elim
      (fun off' => True ∧ data.len - Ext2DirEntry.size - off' < data.len - Ext2DirEntry.size - off)
      fun _ => True) := by
  unfold scanRound
  split
  next hoff =>
    apply (Program.ensures_ofOption _ fun _ _ => trivial).bind (Q := fun _ => True)
    intro de _
    split
    next => trivial
    next hrec =>
      split
      next => trivial
      next hname =>
        rw [Program.bind_eq, subslice_eq (by omega), Program.done_bind]
        split
        next => trivial
        next =>
          have hpos := de.recLen_pos fun hzero => hrec (Or.inl hzero)
          exact ⟨trivial, by omega⟩
  next => trivial

theorem scanRecords_succ (n off : Nat) :
    (Program.ofExcept (scanRecords data name (n + 1) off) : Prog INodeData (Option UInt32)) =
      (scanRound data name off).bind
        (Sum.elim (fun off' => Program.ofExcept (scanRecords data name n off')) Program.done) := by
  unfold scanRound
  rw [scanRecords]
  split
  next =>
    cases Ext2DirEntry.fromBytes data off with
    | none => rfl
    | some de =>
      simp only [Program.ofOption_some, Program.bind_eq, Program.done_bind]
      split
      next => rfl
      next =>
        split
        next => rfl
        next hname =>
          rw [subslice_eq (by omega), Program.done_bind]
          by_cases hfound : de.inode ≠ 0 ∧ entryName data off de = name
          · rw [if_pos hfound, if_pos (by exact hfound)]
            rfl
          · rw [if_neg hfound, if_neg (by exact hfound)]
            rfl
  next => rfl

theorem loop_scanRound (hlen : 0 < data.len) :
    Program.loop (scanRound data name) data.len 0 =
      Program.ofExcept (scanRecords data name data.len 0) :=
  Program.loop_eq (f := fun n off => Program.ofExcept (scanRecords data name n off))
    (I := fun _ => True) (m := fun off => data.len - Ext2DirEntry.size - off)
    (fun n off _ => scanRecords_succ n off) (fun off _ => scanRound_ensures off) trivial (records_fuel hlen 0)

end Scan

section Records

variable {s : Ext2Fs} {data : Slice}

theorem recordRound_ensures (x : Nat × Int) :
    (recordRound s data x).Ensures (Sum.elim
      (fun x' => True ∧ data.len - Ext2DirEntry.size - x'.1 < data.len - Ext2DirEntry.size - x.1)
      fun _ => True) := by
  unfold recordRound
  split
  next hoff =>
    apply (Program.ensures_ofOption _ fun _ _ => trivial).bind (Q := fun _ => True)
    intro de _
    split
    next => trivial
    next hrec =>
      have hpos := de.recLen_pos fun hzero => hrec (Or.inl hzero)
      have hnext : True ∧ data.len - Ext2DirEntry.size - (x.1 + de.recLen.toNat) <
          data.len - Ext2DirEntry.size - x.1 := ⟨trivial, by omega⟩
      split
      next => exact hnext
      next hname =>
        rw [Program.bind_eq, subslice_eq (by omega), Program.done_bind]
        intro r
        cases r with
        | true => exact hnext
        | false => trivial
  next => trivial

theorem readDirRecords_succ (n : Nat) (x : Nat × Int) :
    s.readDirRecords data (n + 1) x.1 x.2 =
      (recordRound s data x).bind
        (Sum.elim (fun x' => s.readDirRecords data n x'.1 x'.2) Program.done) := by
  unfold recordRound
  rw [readDirRecords]
  split
  next =>
    cases Ext2DirEntry.fromBytes data x.1 with
    | none => rfl
    | some de =>
      simp only [Program.ofOption_some, Program.bind_eq, Program.done_bind]
      split
      next => rfl
      next =>
        split
        next => rfl
        next hname =>
          rw [subslice_eq (by omega), Program.done_bind, Program.bind_assoc]
          congr 1
          funext r
          cases r <;> rfl
  next => rfl

theorem loop_recordRound (hlen : 0 < data.len) (off : Nat) (emitted : Int) :
    Program.loop (recordRound s data) data.len (off, emitted) =
      s.readDirRecords data data.len off emitted :=
  Program.loop_eq (f := fun n x => s.readDirRecords data n x.1 x.2) (I := fun _ => True)
    (m := fun x => data.len - Ext2DirEntry.size - x.1) (fun n x _ => readDirRecords_succ n x)
    (fun x _ => recordRound_ensures x) trivial (records_fuel hlen off)

end Records

theorem spliceAlias_ensures {δ : Type} (dentry : Dentry) (found : Option (VfsInode δ)) :
    (spliceAlias dentry found).Ensures fun _ => True := by
  have hsplice : ∀ ino, ((Program.ask (KernelCall.dSpliceAlias ino) : Prog δ Ptr).bind
      fun result => if result = 0 then pure none
        else if result.msb then Program.fail (Error.new (result.truncate 32))
        else pure (some result)).Ensures fun _ => True := by
    intro ino result
    simp only [Program.done_bind]
    split
    next => trivial
    next => split <;> trivial
  unfold spliceAlias
  cases found with
  | none => exact hsplice none
  | some aref =>
    simp only [Program.bind_eq]
    split
    next => exact fun _ => trivial
    next => exact hsplice (some aref.ino)

/-- A position whose block index is within the tree is far from the end of the range. -/
theorem next_position {bs : Nat} {pos : Int} (hlow : 0 < bs) (hhigh : bs ≤ 2 ^ 16)
    (hge : -2 ^ 63 ≤ pos) (hlt : pos < 2 ^ 63)
    (hblock : (UInt64.ofInt (pos.tdiv bs)).toNat < 2 ^ 43) :
    pos < pos.tdiv bs * bs + bs ∧ 0 ≤ pos.tdiv bs * bs ∧ pos.tdiv bs * bs < 2 ^ 60 := by
  have hdivmod := Int.tdiv_mul_add_tmod pos bs
  have hmod := Int.tmod_lt_of_pos pos (by omega : (0 : Int) < bs)
  have habs := Int.natAbs_tdiv_le_natAbs pos bs
  generalize pos.tdiv bs = q at *
  have hq : 0 ≤ q ∧ q < 2 ^ 43 := by
    simp only [UInt64.ofInt, UInt64.toNat_ofNat'] at hblock
    omega
  have hprod : 0 ≤ q * bs := Int.mul_nonneg hq.1 (by omega)
  have hbound : q * bs ≤ 2 ^ 43 * 2 ^ 16 :=
    Int.mul_le_mul (by omega) (by omega) (by omega) (by omega)
  exact ⟨by omega, hprod, by omega⟩

theorem blockSize_bounds (s : Ext2Fs) : 0 < s.blockSize.toNat ∧ s.blockSize.toNat ≤ 2 ^ 16 := by
  obtain ⟨k, hk, hbs⟩ := s.blockSize_pow
  refine ⟨s.blockSize_pos, ?_⟩
  rw [hbs]
  exact Nat.pow_le_pow_right (by decide) (by omega)

theorem blockSize_ne (s : Ext2Fs) : s.blockSize ≠ 0 := by
  intro hzero
  have hpos := s.blockSize_pos
  rw [hzero] at hpos
  exact absurd hpos (by decide)

/-- A position of type `loff_t`. -/
def InRange (pos : Int) : Prop := -2 ^ 63 ≤ pos ∧ pos < 2 ^ 63

/-- What is known of a position whose block index is within the tree. -/
structure OnBlock (s : Ext2Fs) (pos : Int) : Prop where
  lt_next : pos < pos.tdiv s.blockSize.toNat * s.blockSize.toNat + s.blockSize.toNat
  start_nonneg : 0 ≤ pos.tdiv s.blockSize.toNat * s.blockSize.toNat
  start_lt : pos.tdiv s.blockSize.toNat * s.blockSize.toNat < 2 ^ 60

section Loops

variable {s : Ext2Fs} {inode : VfsInode INodeData} {pos : Int}

theorem position_add (hpos : InRange pos) (hblock : OnBlock s pos) (hsize : pos < inode.size.val) :
    InRange (Offset.wrap (pos + s.blockSize.toNat)).val ∧
      (inode.size.val - (Offset.wrap (pos + s.blockSize.toNat)).val).toNat <
        (inode.size.val - pos).toNat := by
  obtain ⟨hlow, hhigh⟩ := blockSize_bounds s
  obtain ⟨hge, hlt⟩ := hpos
  obtain ⟨hnext, -, hend⟩ := hblock
  rw [Offset.wrap_val (by omega) (by omega)]
  exact ⟨⟨by omega, by omega⟩, by omega⟩

theorem position_next (hblock : OnBlock s pos) (hsize : pos < inode.size.val) :
    InRange (Offset.wrap (pos.tdiv s.blockSize.toNat * s.blockSize.toNat + s.blockSize.toNat)).val ∧
      (inode.size.val - (Offset.wrap
        (pos.tdiv s.blockSize.toNat * s.blockSize.toNat + s.blockSize.toNat)).val).toNat <
        (inode.size.val - pos).toNat := by
  obtain ⟨hlow, hhigh⟩ := blockSize_bounds s
  obtain ⟨hnext, hstart, hend⟩ := hblock
  rw [Offset.wrap_val (by omega) (by omega)]
  exact ⟨⟨by omega, by omega⟩, by omega⟩

theorem mapped_pos {offset : Int} {b : Slice}
    (hb : b.base = offset.toNat % PAGE_SIZE ∧ b.len = PAGE_SIZE - offset.toNat % PAGE_SIZE) :
    0 < b.len := by
  have hmod : offset.toNat % PAGE_SIZE < PAGE_SIZE := Nat.mod_lt _ (by decide)
  omega

theorem searchBlocks_succ (name : List UInt8) (n : Nat) (pos : Int) :
    s.searchBlocks inode name (n + 1) pos =
      (searchRound s inode name pos).bind (Sum.elim (s.searchBlocks inode name n) Program.done) := by
  unfold searchRound
  rw [searchBlocks]
  split
  next =>
    simp only [Program.require_eq (blockSize_ne s), Program.bind_eq, Program.done_bind,
      Program.bind_assoc]
    congr 1
    funext boffset
    split
    next => rfl
    next =>
      rw [Program.bind_assoc]
      apply (mappedFolio_ensures _).bind_congr
      intro b hb
      rw [loop_scanRound (mapped_pos hb), Program.bind_assoc]
      congr 1
      funext r
      cases r <;> rfl
  next => rfl

theorem readDirBlocks_succ (n : Nat) (x : Int × Int) :
    s.readDirBlocks inode (n + 1) x.1 x.2 =
      (readDirRound s inode x).bind
        (Sum.elim (fun x' => s.readDirBlocks inode n x'.1 x'.2) Program.done) := by
  unfold readDirRound
  rw [readDirBlocks]
  split
  next =>
    simp only [Program.require_eq (blockSize_ne s), Program.bind_eq, Program.done_bind,
      Program.bind_assoc]
    congr 1
    funext boffset
    split
    next => rfl
    next =>
      rw [Program.bind_assoc]
      apply (mappedFolio_ensures _).bind_congr
      intro b hb
      rw [loop_recordRound (mapped_pos hb), Program.bind_assoc]
      congr 1
      funext r
      obtain ⟨emitted, full⟩ := r
      cases full <;> rfl
  next => rfl

variable (hpage : s.blockSize.toNat ≤ PAGE_SIZE)

include hpage

theorem offsetToBlock_onBlock (idata : INodeData) (hpos : InRange pos) :
    (s.offsetToBlock idata (pos.tdiv s.blockSize.toNat)).Ensures fun _ => OnBlock s pos := by
  refine (offsetToBlock_ensures hpage _ _).mono fun boffset hblock => ?_
  have htree := s.treeBlocks_lt
  obtain ⟨hlow, hhigh⟩ := blockSize_bounds s
  obtain ⟨hnext, hstart, hend⟩ := next_position hlow hhigh hpos.1 hpos.2 (by omega)
  exact ⟨hnext, hstart, hend⟩

theorem searchRound_ensures (name : List UInt8) (hpos : InRange pos) :
    (searchRound s inode name pos).Ensures (Sum.elim
      (fun pos' => InRange pos' ∧ (inode.size.val - pos').toNat < (inode.size.val - pos).toNat)
      fun _ => True) := by
  unfold searchRound
  split
  next hsize =>
    rw [Program.require_eq (blockSize_ne s)]
    apply (offsetToBlock_onBlock hpage inode.data hpos).bind
    intro boffset hblock
    have hnext := position_add hpos hblock hsize
    split
    next => exact hnext
    next =>
      apply (mappedFolio_ensures _).bind
      intro b hb
      rw [loop_scanRound (mapped_pos hb)]
      apply (Program.ensures_ofExcept fun _ _ => trivial).bind (Q := fun _ => True)
      intro r _
      cases r with
      | some ino => trivial
      | none => exact hnext
  next => trivial

theorem readDirRound_ensures {x : Int × Int} (hpos : InRange x.1) :
    (readDirRound s inode x).Ensures (Sum.elim
      (fun x' => InRange x'.1 ∧ (inode.size.val - x'.1).toNat < (inode.size.val - x.1).toNat)
      fun _ => True) := by
  unfold readDirRound
  split
  next hsize =>
    rw [Program.require_eq (blockSize_ne s)]
    apply (offsetToBlock_onBlock hpage inode.data hpos).bind
    intro boffset hblock
    split
    next => exact position_add hpos hblock hsize
    next =>
      apply (mappedFolio_ensures _).bind
      intro b hb
      have hrecords : (Program.loop (recordRound s b) b.len
          (if x.1 > x.1.tdiv s.blockSize.toNat * s.blockSize.toNat then
            (x.1 - x.1.tdiv s.blockSize.toNat * s.blockSize.toNat).toNat else 0, x.2)).Ensures
          fun _ => True :=
        Program.loop_ensures (I := fun _ => True)
          (m := fun x => b.len - Ext2DirEntry.size - x.1) (fun x _ => recordRound_ensures x) trivial
          (records_fuel (mapped_pos hb) _)
      apply hrecords.bind
      rintro ⟨emitted, full⟩ _
      cases full with
      | true => trivial
      | false => exact position_next hblock hsize
  next => trivial

theorem search_eq (name : List UInt8) :
    Program.loop (searchRound s inode name) (inode.size.val.toNat + 1) 0 = s.search inode name :=
  Program.loop_eq (I := InRange) (m := fun pos => (inode.size.val - pos).toNat)
    (fun n pos _ => searchBlocks_succ name n pos) (fun _ hpos => searchRound_ensures hpage name hpos)
    ⟨by decide, by decide⟩ (by simp)

theorem lookup_eq (dentry : Dentry) : lookup s inode dentry = s.lookup inode dentry := by
  simp only [lookup, Ext2Fs.lookup, findInode, search_eq hpage, Program.bind_eq, Program.bind_assoc]
  congr 1
  funext r
  cases r with
  | none => rfl
  | some ino =>
    simp only [iget_eq, Program.bind_assoc]
    rfl

theorem readDir_eq (pos : Offset) : readDir s inode pos = s.readDir inode pos.val := by
  unfold readDir Ext2Fs.readDir
  exact Program.loop_eq (f := fun n (x : Int × Int) => s.readDirBlocks inode n x.1 x.2)
    (I := fun x : Int × Int => InRange x.1)
    (m := fun x : Int × Int => (inode.size.val - x.1).toNat) (fun n x _ => readDirBlocks_succ n x)
    (fun _ hpos => readDirRound_ensures hpage hpos) ⟨pos.ge, pos.lt⟩ (Nat.lt_succ_self _)

theorem lookup_ensures (dentry : Dentry) : (lookup s inode dentry).Ensures fun _ => True := by
  have hsearch : (Program.loop (searchRound s inode dentry.name) (inode.size.val.toNat + 1)
      0).Ensures fun _ => True :=
    Program.loop_ensures (I := InRange) (m := fun pos => (inode.size.val - pos).toNat)
      (fun _ hpos => searchRound_ensures hpage dentry.name hpos) ⟨by decide, by decide⟩ (by simp)
  apply hsearch.bind
  intro r _
  cases r with
  | none => exact spliceAlias_ensures dentry none
  | some ino =>
    simp only [iget_eq]
    exact (s.iget_ensures ino).bind fun found _ => spliceAlias_ensures dentry (some found)

theorem readDir_ensures (pos : Offset) : (readDir s inode pos).Ensures fun _ => True := by
  unfold readDir
  exact Program.loop_ensures (I := fun x : Int × Int => InRange x.1)
    (m := fun x : Int × Int => (inode.size.val - x.1).toNat)
    (fun _ hpos => readDirRound_ensures hpage hpos) ⟨pos.ge, pos.lt⟩ (Nat.lt_succ_self _)

theorem iomapBegin_ensures (sb : SuperBlock) (pos length : Offset) (map : IoMap) :
    (iomapBegin s sb inode pos length map).Ensures fun _ => True := by
  have hbegin : (s.iomapBegin sb inode pos.val length.val map).Ensures fun _ => True := by
    unfold Ext2Fs.iomapBegin
    split
    next => trivial
    next => exact (offsetToBlock_ensures hpage _ _).bind fun _ _ => trivial
  unfold iomapBegin
  rw [Program.require_eq (blockSize_ne s)]
  split
  next => exact hbegin
  next => exact hbegin

end Loops

/-- Whatever the kernel answers, and with it whatever is on the device, the call comes back with
`Ok` or `Err`. -/
def ComesBack {α : Type} (p : Prog INodeData α) : Prop :=
  ∀ (env : Kernel INodeData) (h : History INodeData),
    (∃ a, (p.run env h).1 = .done a) ∨ ∃ e, (p.run env h).1 = .failed e

theorem comesBack_of_ensures {α : Type} {p : Prog INodeData α} (hp : p.Ensures fun _ => True) :
    ComesBack p := by
  intro env h
  rcases hp.run env h with ⟨a, ha, -⟩ | ⟨e, he⟩
  · exact Or.inl ⟨a, ha⟩
  · exact Or.inr ⟨e, he⟩

/-- No operation of a mounted file system with blocks of at most a page panics or loops forever.
`fill_super` returns values of `Ext2Fs` only, so nothing else is asked of the image; the inodes are
arbitrary as well. -/
theorem operations_come_back (s : Ext2Fs) (hblock : s.blockSize.toNat ≤ 4096) :
    (∀ ino, ComesBack (iget s ino)) ∧
    (∀ parent dentry, ComesBack (lookup s parent dentry)) ∧
    (∀ inode pos, ComesBack (readDir s inode pos)) ∧
    ∀ sb inode pos length map, 0 ≤ pos.val → ComesBack (iomapBegin s sb inode pos length map) := by
  refine ⟨fun ino => ?_, fun parent dentry => ?_, fun inode pos => ?_,
    fun sb inode pos length map _ => ?_⟩
  · rw [iget_eq]
    exact comesBack_of_ensures (s.iget_ensures ino)
  · exact comesBack_of_ensures (lookup_ensures hblock dentry)
  · exact comesBack_of_ensures (readDir_ensures hblock pos)
  · exact comesBack_of_ensures (iomapBegin_ensures hblock sb pos length map)

theorem operations_come_back_small :
    (∀ ino, ComesBack (iget smallExt2 ino)) ∧
    (∀ parent dentry, ComesBack (lookup smallExt2 parent dentry)) ∧
    (∀ inode pos, ComesBack (readDir smallExt2 inode pos)) ∧
    ∀ sb inode pos length map, 0 ≤ pos.val →
      ComesBack (iomapBegin smallExt2 sb inode pos length map) :=
  operations_come_back smallExt2 (by decide)

end Panicking

end Ext2Fs

end Rko
