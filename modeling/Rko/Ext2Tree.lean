import Rko.Ext2File
import Rko.Ext2InodeTable
import Rko.Ext2Packed
import Rko.MountedFs

namespace Rko

open CallProgram InterleavedSearch

section Offers

variable {δ : Type} {env : Kernel δ}

def Listed.entry (e : Listed) : List UInt8 × UInt64 := (e.name, e.ino)

/-- Between the two histories the first `n` of the records were offered and taken, and more of them
were offered only if `n` is not all of them. -/
structure Took (env : Kernel δ) (rs : List DirRecord) (h : History δ) (n : Nat) (h' : History δ) :
    Prop where
  count : n ≤ rs.length
  entries : (accepted h').map Listed.entry =
    (accepted h).map Listed.entry ++ (rs.take n).map DirRecord.entry
  all : TakesAll env → n = rs.length

theorem sequel_none {first second : List DirRecord × Option Error}
    (h : (sequel first second).2 = none) :
    first.2 = none ∧ second.2 = none ∧ (sequel first second).1 = first.1 ++ second.1 := by
  unfold sequel at h ⊢
  split at h
  next hfirst =>
    rw [if_pos hfirst]
    exact ⟨hfirst, h, rfl⟩
  next hfirst => exact absurd h hfirst

theorem took_nil (h : History δ) : Took env [] h 0 h :=
  ⟨Nat.le_refl 0, (List.append_nil _).symm, fun _ => rfl⟩

/-- What is read in between does not count. -/
theorem Took.of_accepted {rs : List DirRecord} {h₀ h h' : History δ} {n : Nat}
    (ht : Took env rs h n h') (haccepted : accepted h = accepted h₀) : Took env rs h₀ n h' :=
  ⟨ht.count, haccepted ▸ ht.entries, ht.all⟩

theorem Took.cons {r : DirRecord} {rs : List DirRecord} {h₀ h h' : History δ} {n : Nat}
    {etype : DirEntryType} (haccepted : accepted h = accepted h₀ ++ [⟨r.name, r.ino, etype⟩])
    (ht : Took env rs h n h') : Took env (r :: rs) h₀ (n + 1) h' := by
  have hcount := ht.count
  refine ⟨Nat.succ_le_succ hcount, ?_, fun htakes => congrArg Nat.succ (ht.all htakes)⟩
  rw [ht.entries, haccepted, List.map_append, List.append_assoc, List.take_succ_cons]
  rfl

/-- A loop that took everything is continued by the next one. -/
theorem Took.append {rs rs' : List DirRecord} {h₀ h h' : History δ} {n : Nat}
    (ht : Took env rs h₀ rs.length h) (ht' : Took env rs' h n h') :
    Took env (rs ++ rs') h₀ (rs.length + n) h' := by
  have hcount := ht'.count
  refine ⟨?_, ?_, fun htakes => ?_⟩
  · rw [List.length_append]
    omega
  · rw [ht'.entries, ht.entries, List.take_length, List.take_length_add_append, List.map_append,
      List.append_assoc]
  · rw [List.length_append, ht'.all htakes]

/-- A loop that was stopped is not continued. -/
theorem Took.stopped {rs : List DirRecord} {h₀ h : History δ} {n : Nat} (ht : Took env rs h₀ n h)
    (hn : n < rs.length) (rs' : List DirRecord) : Took env (rs ++ rs') h₀ n h := by
  refine ⟨?_, ?_, fun htakes => ?_⟩
  · rw [List.length_append]
    omega
  · rw [ht.entries, List.take_append_of_le_length hn.le]
  · have hall := ht.all htakes
    omega

theorem Took.refused {rs : List DirRecord} {h h' : History δ} (htakes : ¬ TakesAll env)
    (haccepted : accepted h' = accepted h) : Took env rs h 0 h' := by
  refine ⟨Nat.zero_le _, ?_, fun hall => absurd hall htakes⟩
  rw [haccepted]
  exact (List.append_nil _).symm

/-- A loop that offers the records in turn from the position `pos` on, and says where it stopped
and whether it was stopped. -/
def Offers (env : Kernel δ) (rs : List DirRecord) (pos : Nat) (p : Prog δ (Int × Bool)) : Prop :=
  ∀ h, ∃ n h', Took env rs h n h' ∧
    p.run env h = (.done (((pos + advance (rs.take n) : Nat) : Int), decide (n < rs.length)), h')

/-- The same for a whole call, which says where it stopped. -/
def ListsFrom (env : Kernel δ) (rs : List DirRecord) (pos : Nat) (p : Prog δ Int) : Prop :=
  ∀ h, ∃ n h', Took env rs h n h' ∧
    p.run env h = (.done ((pos + advance (rs.take n) : Nat) : Int), h')

theorem offers_nil (pos : Nat) : Offers env [] pos (pure ((pos : Int), false)) :=
  fun h => ⟨0, h, took_nil h, rfl⟩

theorem listsFrom_nil (pos : Nat) : ListsFrom env [] pos (pure (pos : Int)) :=
  fun h => ⟨0, h, took_nil h, rfl⟩

theorem Offers.cons {r : DirRecord} {rs : List DirRecord} {pos : Nat} {etype : DirEntryType}
    (hpos : pos + r.posInc < 2 ^ 63) {f : Option Int → Prog δ (Int × Bool)}
    (hsome : Offers env rs (pos + r.posInc) (f (some ((pos + r.posInc : Nat) : Int))))
    (hnone : f none = pure ((pos : Int), true)) :
    Offers env (r :: rs) pos ((emit pos r.posInc r.name r.ino etype).bind f) := by
  intro h
  have hnext : (pos : Int) + r.posInc = ((pos + r.posInc : Nat) : Int) :=
    (Int.natCast_add pos r.posInc).symm
  rcases emit_cases hnext hpos r.name r.ino etype h with
    ⟨h₁, haccepted, hrun⟩ | ⟨htakes, h₁, haccepted, hrun⟩
  · obtain ⟨n, h', htook, hrest⟩ := hsome h₁
    refine ⟨n + 1, h', htook.cons haccepted, ?_⟩
    rw [hrun, hrest, List.take_succ_cons, advance_cons, List.length_cons, Nat.add_assoc]
    simp only [Nat.add_lt_add_iff_right]
  · refine ⟨0, h₁, .refused htakes haccepted, ?_⟩
    rw [hrun, hnone]
    rfl

theorem ListsFrom.after_reads {α : Type} {p : Prog δ α} {a : α} (hp : Reads p)
    (ha : Program.Returns env p (.done a)) {rs : List DirRecord} {pos : Nat} {f : α → Prog δ Int}
    (hf : ListsFrom env rs pos (f a)) : ListsFrom env rs pos (p.bind f) := by
  intro h
  obtain ⟨h₁, haccepted, hrun⟩ := run_bind_of_reads hp ha f h
  obtain ⟨n, h', htook, hrest⟩ := hf h₁
  exact ⟨n, h', htook.of_accepted haccepted, hrun.trans hrest⟩

/-- A loop and what comes after it, unless the loop was stopped. -/
theorem Offers.sequel {rs rs' : List DirRecord} {pos : Nat} {p : Prog δ (Int × Bool)}
    {k : Int → Prog δ Int} (hp : Offers env rs pos p)
    (hk : ListsFrom env rs' (pos + advance rs) (k ((pos + advance rs : Nat) : Int))) :
    ListsFrom env (rs ++ rs') pos (p.bind fun r => if r.2 then pure r.1 else k r.1) := by
  intro h
  obtain ⟨n, h₁, htook, hrun⟩ := hp h
  have hcount := htook.count
  rw [Program.run_bind, hrun]
  by_cases hn : n < rs.length
  · refine ⟨n, h₁, htook.stopped hn rs', ?_⟩
    rw [List.take_append_of_le_length hn.le]
    simp only [hn, decide_true, if_true]
    rfl
  · obtain rfl : n = rs.length := by omega
    obtain ⟨n', h', htook', hrest⟩ := hk h₁
    refine ⟨rs.length + n', h', htook.append htook', ?_⟩
    rw [List.take_length_add_append, advance_append, ← Nat.add_assoc]
    simp only [hn, decide_false, List.take_length]
    exact hrest

end Offers

namespace Ext2Fs

section Emission

variable {s : Ext2Fs} {disk : Disk} {env : Kernel INodeData}

/-- The loop over one block offers its live records in turn. -/
theorem readDirRecords_offers {d : Slice} {fuel off pos : Nat}
    (hnone : (liveRecords d fuel off).2 = none)
    (hpos : pos + advance (liveRecords d fuel off).1 < 2 ^ 63) :
    Offers env (liveRecords d fuel off).1 pos (s.readDirRecords d fuel off (pos : Int)) := by
  induction fuel generalizing off pos with
  | zero => exact offers_nil pos
  | succ fuel ih =>
    unfold liveRecords at hnone hpos ⊢
    unfold readDirRecords
    split at hnone
    next hin =>
      rw [if_pos hin] at hpos ⊢
      rw [if_pos hin]
      cases hde : Ext2DirEntry.fromBytes d off with
      | none =>
        rw [hde] at hnone
        cases hnone
      | some de =>
        simp only [hde] at hnone hpos ⊢
        split at hnone
        next hend =>
          simp only [if_pos hend] at hpos ⊢
          exact offers_nil pos
        next hend =>
          simp only [if_neg hend] at hpos ⊢
          split at hnone
          next hskip =>
            simp only [if_pos hskip] at hpos ⊢
            exact ih hnone hpos
          next hskip =>
            simp only [if_neg hskip, advance_cons] at hpos ⊢
            have hrest : pos + de.recLen.toNat +
                advance (liveRecords d fuel (off + de.recLen.toNat)).1 < 2 ^ 63 := by omega
            have hrecord : pos + de.recLen.toNat < 2 ^ 63 := by omega
            exact Offers.cons hrecord (ih hnone hrest) rfl
    next hin =>
      rw [if_neg hin] at hpos ⊢
      rw [if_neg hin]
      exact offers_nil pos

/-- A call from `pos` on offers what the bytes from there are taken for. -/
theorem readDirBlocks_lists (dir : Directory s disk) (hd : ReadsDisk env disk)
    (hbs : s.blockSize.toNat = PAGE_SIZE) {fuel pos : Nat} {emitted : Nat}
    (hnone : (s.liveFrom disk dir.inode fuel pos).2 = none)
    (hpos : emitted + advance (s.liveFrom disk dir.inode fuel pos).1 < 2 ^ 63) :
    ListsFrom env (s.liveFrom disk dir.inode fuel pos).1 emitted
      (s.readDirBlocks dir.inode fuel pos emitted) := by
  have hsize := dir.size_lt
  have hpage : s.blockSize.toNat = 4096 := hbs
  induction fuel generalizing pos emitted with
  | zero => exact listsFrom_nil emitted
  | succ fuel ih =>
    unfold liveFrom at hnone hpos ⊢
    unfold readDirBlocks
    split at hnone
    next hin =>
      have hdiv : (pos : Int).tdiv s.blockSize.toNat = ((pos / s.blockSize.toNat : Nat) : Int) := rfl
      have hle := Nat.div_mul_le_self pos s.blockSize.toNat
      have hmod := Nat.div_add_mod' pos s.blockSize.toNat
      rw [if_pos hin] at hpos ⊢
      rw [if_pos hin]
      simp only [Program.bind_eq, hdiv]
      refine ListsFrom.after_reads (s.offsetToBlock_reads _ _)
        (offsetToBlock_returns hd (Nat.le_of_eq hbs) (block_lt_treeBlocks dir (dir.block_lt hin))
          dir.inode.data) ?_
      by_cases hw : s.walkedBlock disk dir.inode.data (pos / s.blockSize.toNat) = 0
      · have hnext : (Offset.wrap ((pos : Int) + s.blockSize.toNat)).val =
            ((pos + s.blockSize.toNat : Nat) : Int) := by
          rw [Offset.wrap_val (by omega) (by omega)]
          push_cast
          rfl
        simp only [if_pos hw] at hnone hpos ⊢
        rw [if_pos (toUInt64_eq_zero.mpr hw), hnext]
        exact ih hnone hpos
      · have hnext : (Offset.wrap (((pos / s.blockSize.toNat : Nat) : Int) * s.blockSize.toNat +
            s.blockSize.toNat)).val =
              ((pos / s.blockSize.toNat * s.blockSize.toNat + s.blockSize.toNat : Nat) : Int) := by
          rw [Offset.wrap_val (by omega) (by omega)]
          push_cast
          rfl
        have hoff : (if (pos : Int) > ((pos / s.blockSize.toNat : Nat) : Int) * s.blockSize.toNat then
            ((pos : Int) - ((pos / s.blockSize.toNat : Nat) : Int) * s.blockSize.toNat).toNat
            else 0) = pos % s.blockSize.toNat := by
          split <;> norm_cast <;> omega
        simp only [if_neg hw] at hnone hpos ⊢
        rw [if_neg (mt toUInt64_eq_zero.mp hw), UInt32.toNat_toUInt64]
        have hmapped := mappedFolio_returns hd
          (show (0 : Int) ≤ (s.walkedBlock disk dir.inode.data
            (pos / s.blockSize.toNat)).toNat * s.blockSize.toNat by positivity)
        refine ListsFrom.after_reads (mappedFolio_reads _) hmapped ?_
        have htoNat : (((s.walkedBlock disk dir.inode.data (pos / s.blockSize.toNat)).toNat : Int) *
            s.blockSize.toNat).toNat =
              (s.walkedBlock disk dir.inode.data (pos / s.blockSize.toNat)).toNat *
                s.blockSize.toNat := by norm_cast
        rw [htoNat]
        obtain ⟨hfirst, hsecond, hboth⟩ := sequel_none hnone
        rw [hboth, advance_append] at hpos
        rw [hboth]
        simp only [hoff, hnext]
        exact (readDirRecords_offers hfirst (by omega)).sequel (ih hsecond (by omega))
    next hin =>
      rw [if_neg hin] at hpos ⊢
      rw [if_neg hin]
      exact listsFrom_nil emitted

/-- From the position after the first `k` live records on, the others are offered. -/
theorem Directory.Packed.readDir_lists {dir : Directory s disk} (hp : dir.Packed)
    (hd : ReadsDisk env disk) (hbs : s.blockSize.toNat = PAGE_SIZE) {k : Nat}
    (hk : k ≤ (liveOf dir.records).length) :
    ListsFrom env ((liveOf dir.records).drop k) (advance ((liveOf dir.records).take k))
      (s.readDir dir.inode ((advance ((liveOf dir.records).take k) : Nat) : Int)) := by
  have hfrom := hp.liveFrom_records hbs hk
  have htotal := hp.advance_records hbs
  have hsum := advance_append ((liveOf dir.records).take k) ((liveOf dir.records).drop k)
  rw [List.take_append_drop] at hsum
  have hfuel : (dir.inode.size.val - (advance ((liveOf dir.records).take k) : Nat)).toNat =
      dir.inode.size.val.toNat - advance ((liveOf dir.records).take k) := by omega
  have hbound : advance ((liveOf dir.records).take k) + advance (s.liveFrom disk dir.inode
      (dir.inode.size.val.toNat - advance ((liveOf dir.records).take k) + 1)
      (advance ((liveOf dir.records).take k))).1 < 2 ^ 63 := by
    rw [hfrom, ← hsum]
    omega
  have hlists := readDirBlocks_lists dir hd hbs (congrArg Prod.snd hfrom) hbound
  rw [hfrom] at hlists
  rw [readDir, hfuel]
  exact hlists

end Emission

section Image

variable (s : Ext2Fs) (disk : Disk) (sb : SuperBlock)

/-- The inode of a number, as its record in the table of its group has it. -/
def storedInode (ino : UInt64) : Option (VfsInode INodeData) :=
  if ino.toUInt32.toUInt64 = ino then
    match s.locate ino.toUInt32 with
    | .ok (g, offset) =>
      (s.decodeInode (.new ino sb.ptr) offset
        (disk.tail (s.inodeBlockOffset g offset).toNat)).toOption
    | .error _ => none
  else none

/-- The kernel reads a folio of a file through the mappings of `begin`. -/
def iomapReadFolio (inode : VfsInode INodeData) (folio : LockedFolio) :
    Prog INodeData LockedFolio := do
  let bytes ← s.readMappings sb disk inode folio.size folio.pos.toNat folio.size
  pure (folio.fill 0 folio.size fun i => bytes.getD i 0)

def driver : FsDriver INodeData where
  lookup := s.lookup
  find := s.findInode
  readDir := s.readDir
  readFolio := s.iomapReadFolio disk sb
  lookup_eq := fun _ _ => rfl

def imageMount : FsMount INodeData :=
  ⟨s.driver disk sb, fun index => .folio (disk.page index), sb.ptr⟩

/-- The records in the blocks of a directory. -/
def recordsOf (inode : VfsInode INodeData) : List (Ext2DirEntry × List UInt8) :=
  (List.range (inode.size.val.toNat / s.blockSize.toNat)).flatMap (s.blockRecords disk inode.data)

/-- A device that holds a tree: its blocks are as large as a page, directories are packed and their
live records name inodes that can be loaded, and files have no holes. -/
structure Image : Prop where
  block : s.blockSize.toNat = PAGE_SIZE
  directory : ∀ {ino inode}, s.storedInode disk sb ino = some inode → inode.fop = .dir →
    ∃ dir : Directory s disk, dir.inode = inode ∧ dir.Packed ∧
      ∀ r ∈ dir.records, Live r → ∃ child, s.storedInode disk sb r.1.inode.toUInt64 = some child
  file : ∀ {ino inode}, s.storedInode disk sb ino = some inode → inode.fop = .regular →
    inode.size.val ≤ (treeBlocks (s.blockSize.toNat / 4) * s.blockSize.toNat : Nat) ∧
      ∀ p : Nat, (p : Int) < inode.size.val →
        s.fileBlock disk inode.data (p / s.blockSize.toNat) ≠ none

/-- The tree on the device. A directory may be read from behind any of its live records. -/
def tree : FsTree INodeData where
  root := EXT2_ROOT_INO.toUInt64
  stored := s.storedInode disk sb
  Names ino name := name ≠ [] ∧ ∃ inode, s.storedInode disk sb ino = some inode ∧ inode.fop = .dir
  child ino name := (s.storedInode disk sb ino).bind fun inode =>
    (firstNamed name (s.recordsOf disk inode)).map UInt32.toUInt64
  Lists ino pos := ∃ inode, s.storedInode disk sb ino = some inode ∧ inode.fop = .dir ∧
    ∃ k ≤ (liveOf (s.recordsOf disk inode)).length,
      pos = (advance ((liveOf (s.recordsOf disk inode)).take k) : Nat)
  listed ino pos emits pos' entries := ∃ inode, s.storedInode disk sb ino = some inode ∧
    ∃ k, pos = (advance ((liveOf (s.recordsOf disk inode)).take k) : Nat) ∧
      pos' = (advance ((liveOf (s.recordsOf disk inode)).take (k + entries.length)) : Nat) ∧
      entries.map Listed.entry <+: ((liveOf (s.recordsOf disk inode)).map DirRecord.entry).drop k ∧
      ((∀ h, emits h = true) → entries.map Listed.entry =
        ((liveOf (s.recordsOf disk inode)).map DirRecord.entry).drop k)
  Reads ino folio := ∃ inode, s.storedInode disk sb ino = some inode ∧ inode.fop = .regular ∧
    0 ≤ folio.pos ∧ folio.size < 2 ^ 64
  folio ino folio folio' := ∃ inode, s.storedInode disk sb ino = some inode ∧
    folio'.size = folio.size ∧
    (∀ i < folio.size, (folio.pos.toNat + i : Nat) < inode.size.val → ∃ ptr,
      s.fileBlock disk inode.data ((folio.pos.toNat + i) / s.blockSize.toNat) = some ptr ∧
      folio'.byte i = disk (ptr.toNat * s.blockSize.toNat +
        (folio.pos.toNat + i) % s.blockSize.toNat)) ∧
    ∀ i < folio.size, inode.size.val ≤
      ((folio.pos.toNat + i) / s.blockSize.toNat * s.blockSize.toNat : Nat) → folio'.byte i = 0

variable {s disk sb}

theorem mountKernel_readsDisk (disk : Disk) (sb : Ptr) (cache : InodeCache INodeData)
    (emits : History INodeData → Bool) :
    ReadsDisk (mountKernel (fun index => .folio (disk.page index)) sb cache emits) disk :=
  fun _ _ => rfl

theorem storedInode_eq_some {ino : UInt64} {inode : VfsInode INodeData}
    (h : s.storedInode disk sb ino = some inode) :
    ino.toUInt32.toUInt64 = ino ∧ ∃ g offset, s.locate ino.toUInt32 = .ok (g, offset) ∧
      s.decodeInode (.new ino sb.ptr) offset (disk.tail (s.inodeBlockOffset g offset).toNat) =
        .ok inode := by
  unfold storedInode at h
  split at h
  next hcast =>
    refine ⟨hcast, ?_⟩
    split at h
    next g offset hlocate =>
      refine ⟨g, offset, hlocate, ?_⟩
      cases hdecode : s.decodeInode (.new ino sb.ptr) offset
        (disk.tail (s.inodeBlockOffset g offset).toNat) with
      | error e =>
        rw [hdecode] at h
        cases h
      | ok found =>
        rw [hdecode] at h
        exact congrArg Except.ok (Option.some.inj h)
    next => cases h
  next => cases h

theorem inodeType_sb {n n' : NewINode} {idata : Ext2DiskInode} {b : Slice} {start : Nat}
    {typ : INodeType} {size : Offset} (h : inodeType n idata b start = .ok (n', typ, size)) :
    n'.sb = n.sb := by
  unfold inodeType at h
  simp only at h
  split_ifs at h
  all_goals try (cases h; rfl)
  split at h
  · cases h
    rfl
  · cases h

theorem decodeInode_sb {n : NewINode} {offset : UInt32} {b : Slice}
    {inode : VfsInode INodeData} (h : s.decodeInode n offset b = .ok inode) : inode.sb = n.sb := by
  unfold decodeInode at h
  split at h
  next => cases h
  next idata _ =>
    split at h
    next => cases h
    next =>
      split at h
      next => cases h
      next n' typ size htype =>
        cases h
        rw [NewINode.init_sb, inodeType_sb htype]

theorem storedInode_ino {ino : UInt64} {inode : VfsInode INodeData}
    (h : s.storedInode disk sb ino = some inode) : inode.ino = ino ∧ inode.sb = sb.ptr := by
  obtain ⟨-, g, offset, -, hdecode⟩ := storedInode_eq_some h
  exact ⟨decodeInode_ino hdecode, decodeInode_sb hdecode⟩

/-- `iget` gives the stored inode, from the cache or from the device. -/
theorem iget_stored {cache : InodeCache INodeData} {emits : History INodeData → Bool}
    (hcache : cache.Coherent (s.storedInode disk sb)) {ino : UInt32}
    {inode : VfsInode INodeData} (h : s.storedInode disk sb ino.toUInt64 = some inode) :
    Program.Returns (mountKernel (fun index => .folio (disk.page index)) sb.ptr cache emits)
      (s.iget ino) (.done inode) := by
  obtain ⟨-, g, offset, hlocate, hdecode⟩ := storedInode_eq_some h
  rw [UInt32.toUInt32_toUInt64] at hlocate
  have hnonneg : 0 ≤ s.inodeBlockOffset g offset := by
    rw [inodeBlockOffset]
    positivity
  rw [iget, hlocate, Program.ofExcept_ok, Program.bind_eq, Program.done_bind]
  refine igetWith_returns hcache h ?_
  refine (mappedFolio_returns (mountKernel_readsDisk disk sb.ptr cache emits) hnonneg).bind ?_
  rw [hdecode]
  exact Program.Returns.done _ _

theorem recordsOf_directory (dir : Directory s disk) : s.recordsOf disk dir.inode = dir.records := by
  have hcount : dir.inode.size.val.toNat / s.blockSize.toNat = dir.blocks := by
    rw [dir.size_eq, ← Nat.cast_mul, Int.toNat_natCast, Nat.mul_div_cancel _ s.blockSize_pos]
  rw [recordsOf, hcount]
  rfl

/-- With blocks as large as a page nothing foreign is scanned. -/
theorem Directory.Packed.foreignOutcome {dir : Directory s disk} (hp : dir.Packed)
    (hbs : s.blockSize.toNat = PAGE_SIZE) (name : List UInt8) {j : Nat} (hj : j < dir.blocks) :
    s.foreignOutcome disk dir.inode.data name j = .ok none := by
  cases hptr : s.fileBlock disk dir.inode.data j with
  | some ptr =>
    have hlen := blockPage_len disk hbs ptr
    have hpos := s.blockSize_pos
    simp only [Ext2Fs.foreignOutcome, hptr]
    obtain ⟨fuel, hfuel⟩ : ∃ fuel, (disk.tail (ptr.toNat * s.blockSize.toNat)).len = fuel + 1 :=
      ⟨s.blockSize.toNat - 1, by omega⟩
    rw [hfuel, scanRecords, if_neg (by omega)]
  | none =>
    simp only [Ext2Fs.foreignOutcome, hptr, blockOutcome, if_pos (hp.holes j hj hptr)]

theorem Directory.Packed.search_returns {env : Kernel INodeData} {dir : Directory s disk}
    (hp : dir.Packed) (hd : ReadsDisk env disk) (hbs : s.blockSize.toNat = PAGE_SIZE)
    {name : List UInt8} (hname : name ≠ []) :
    Program.Returns env (s.search dir.inode name) (.done (firstNamed name dir.records)) := by
  have hsearch := Ext2Fs.search_returns hd (Nat.le_of_eq hbs) dir hname
  have hown : firstOutcome (ownThenForeign
      (fun j => firstNamed name (s.blockRecords disk dir.inode.data j))
      (s.foreignOutcome disk dir.inode.data name)) (List.range dir.blocks) =
        .ok (firstNamed name dir.records) := by
    rw [Directory.records, firstNamed_flatMap, firstOutcome_eq_own_iff]
    exact Or.inl (firstForeign_eq_none fun j hj =>
      hp.foreignOutcome hbs name (List.mem_range.mp hj))
  rw [hown] at hsearch
  exact hsearch

theorem firstNamed_live {name : List UInt8} {rs : List (Ext2DirEntry × List UInt8)} {ino : UInt32}
    (h : firstNamed name rs = some ino) : ∃ r ∈ rs, Live r ∧ r.1.inode = ino := by
  induction rs with
  | nil => cases h
  | cons r rs ih =>
    unfold firstNamed at h
    split at h
    next hmatch => exact ⟨r, List.mem_cons_self, hmatch.1, Option.some.inj h⟩
    next =>
      obtain ⟨r', hr', hlive, hino⟩ := ih h
      exact ⟨r', List.mem_cons_of_mem r hr', hlive, hino⟩

theorem findInode_stored (himage : Image s disk sb) {cache : InodeCache INodeData}
    (hcache : cache.Coherent (s.storedInode disk sb)) {ino : UInt64}
    {parent : VfsInode INodeData} {name : List UInt8}
    (hparent : s.storedInode disk sb ino = some parent) (hname : (s.tree disk sb).Names ino name) :
    ∃ found, Program.Returns ((s.imageMount disk sb).kernel cache) (s.findInode parent name)
        (.done found) ∧
      found.map (·.ino) = (s.tree disk sb).child ino name ∧
      ∀ child, found = some child → s.storedInode disk sb child.ino = some child := by
  obtain ⟨hne, inode, hinode, hdir⟩ := hname
  cases hparent.symm.trans hinode
  obtain ⟨dir, rfl, hp, hchildren⟩ := himage.directory hparent hdir
  have hsearch := hp.search_returns
    (mountKernel_readsDisk disk sb.ptr cache fun _ => true) himage.block hne
  have hchild : (s.tree disk sb).child ino name =
      (firstNamed name dir.records).map UInt32.toUInt64 := by
    simp only [tree, hparent, Option.bind_some, recordsOf_directory]
  rw [hchild]
  cases hfirst : firstNamed name dir.records with
  | none =>
    rw [hfirst] at hsearch
    refine ⟨none, hsearch.bind (Program.Returns.done _ _), rfl, ?_⟩
    intro child hc
    cases hc
  | some number =>
    rw [hfirst] at hsearch
    obtain ⟨r, hr, hlive, rfl⟩ := firstNamed_live hfirst
    obtain ⟨child, hload⟩ := hchildren r hr hlive
    have hino := (storedInode_ino hload).1
    have higet : Program.Returns ((s.imageMount disk sb).kernel cache) (s.iget r.1.inode)
        (.done child) := iget_stored hcache hload
    refine ⟨some child, hsearch.bind (higet.bind (Program.Returns.done _ _)), ?_, ?_⟩
    · rw [Option.map_some, Option.map_some, hino]
    · intro c hc
      cases hc
      rw [hino]
      exact hload

/-- A call of `read_dir` lists the live records from its position on, up to the first that is
refused. -/
theorem readDir_listed (himage : Image s disk sb) {ino : UInt64} {inode : VfsInode INodeData}
    (hinode : s.storedInode disk sb ino = some inode) {pos : Int}
    (hlists : (s.tree disk sb).Lists ino pos) (cache : InodeCache INodeData)
    (emits : History INodeData → Bool) :
    ∃ pos' h, (s.readDir inode pos).run
        (mountKernel (fun index => .folio (disk.page index)) sb.ptr cache emits) [] =
          (.done pos', h) ∧
      (s.tree disk sb).listed ino pos emits pos' (accepted h) := by
  obtain ⟨other, hother, hdir, k, hk, rfl⟩ := hlists
  cases hinode.symm.trans hother
  obtain ⟨dir, rfl, hp, -⟩ := himage.directory hinode hdir
  rw [recordsOf_directory] at hk ⊢
  have hd := mountKernel_readsDisk disk sb.ptr cache emits
  obtain ⟨n, h, htook, hrun⟩ := hp.readDir_lists hd himage.block hk []
  have hcount := htook.count
  rw [List.length_drop] at hcount
  have hentries : (accepted h).map Listed.entry =
      (((liveOf dir.records).drop k).take n).map DirRecord.entry := htook.entries
  have hlength : (accepted h).length = n := by
    have hlen := congrArg List.length hentries
    rw [List.length_map, List.length_map, List.length_take, List.length_drop] at hlen
    omega
  refine ⟨_, h, hrun, dir.inode, hinode, k, ?_, ?_, ?_, ?_⟩
  · rw [recordsOf_directory]
  · rw [recordsOf_directory, hlength, List.take_add, advance_append]
  · rw [recordsOf_directory, hentries, ← List.map_drop]
    exact (List.take_prefix _ _).map _
  · intro htakes
    have hall := htook.all fun h _ _ _ _ => htakes h
    rw [recordsOf_directory, hentries, ← List.map_drop, hall, List.take_length]

/-- A folio is filled with the bytes of the file. -/
theorem iomapReadFolio_shows (himage : Image s disk sb) {env : Kernel INodeData}
    (hd : ReadsDisk env disk) {ino : UInt64} {inode : VfsInode INodeData}
    (hinode : s.storedInode disk sb ino = some inode) {folio : LockedFolio}
    (hreads : (s.tree disk sb).Reads ino folio) :
    ∃ folio', Program.Returns env (s.iomapReadFolio disk sb inode folio) (.done folio') ∧
      (s.tree disk sb).folio ino folio folio' := by
  obtain ⟨other, hother, hreg, hpos, hsize⟩ := hreads
  cases hinode.symm.trans hother
  obtain ⟨hblocks, hdense⟩ := himage.file hinode hreg
  obtain ⟨bytes, hreturns, hlength, hread⟩ := readMappings_returns folio.pos.toNat hd
    (Nat.le_of_eq himage.block) (reachable_of_size hblocks) sb (Nat.le_refl folio.size) hsize
  have hfill : ∀ i < folio.size,
      (folio.fill 0 folio.size fun i => bytes.getD i 0).byte i = bytes[i]?.getD 0 := by
    intro i hi
    rw [LockedFolio.fill_byte, if_pos (by omega), Nat.sub_zero, List.getD_eq_getElem?_getD]
  refine ⟨folio.fill 0 folio.size fun i => bytes.getD i 0,
    hreturns.bind (Program.Returns.done env _), inode, hinode, rfl, ?_, ?_⟩
  · intro i hi hin
    obtain ⟨ptr, hptr, hbyte⟩ := hread.of_dense hdense i (by omega) hin
    refine ⟨ptr, hptr, ?_⟩
    rw [hfill i hi, hbyte]
    rfl
  · intro i hi hbehind
    rw [hfill i hi, hread.behind i (by omega) hbehind]
    rfl

theorem imageMount_shows (himage : Image s disk sb) :
    (s.imageMount disk sb).Shows (s.tree disk sb) where
  stored_ino := fun h => storedInode_ino h
  find := fun hcache _ _ _ hparent hname => findInode_stored himage hcache hparent hname
  readDir := fun hinode hlists cache emits => readDir_listed himage hinode hlists cache emits
  readFolio := by
    intro ino inode folio hinode hreads cache
    obtain ⟨folio', hreturns, hfolio⟩ := iomapReadFolio_shows himage
      (mountKernel_readsDisk disk sb.ptr cache fun _ => true) hinode hreads
    exact ⟨folio', hreturns [], hfolio⟩

/-- In any order of calls, and whatever is evicted between them, a mounted ext2 device is seen as
the tree that it holds. -/
theorem ext2_tree_seen (himage : Image s disk sb) {root : VfsInode INodeData}
    (hroot : s.storedInode disk sb EXT2_ROOT_INO.toUInt64 = some root)
    {calls : List (FsCall INodeData)} (hcalls : ∀ call ∈ calls, (s.tree disk sb).Allows call) :
    Program.Returns ((s.imageMount disk sb).kernel .empty) (s.iget EXT2_ROOT_INO) (.done root) ∧
      ∃ replies m, (s.imageMount disk sb).run ⟨root, InodeCache.empty.insert root⟩ calls =
          some (replies, m) ∧ List.Forall₂ (s.tree disk sb).Answers calls replies := by
  have hino := (storedInode_ino hroot).1
  have hstored : s.storedInode disk sb root.ino = some root := by rw [hino, hroot]
  have hm : Mounted.Represents ⟨root, InodeCache.empty.insert root⟩ (s.tree disk sb) :=
    ⟨hroot, InodeCache.coherent_empty.insert hstored⟩
  obtain ⟨replies, m, hrun, hanswers, -⟩ := run_answers (imageMount_shows himage) hm hcalls
  exact ⟨iget_stored InodeCache.coherent_empty hroot, replies, m, hrun, hanswers⟩

end Image

/-- Inode 2 is a directory with its records in block 20, `.`, `..` and `a`; inode 11 is the file
`a` with its five bytes in block 21. -/
def treeTable : Disk
  | 20608 => 0xED
  | 20609 => 0x41
  | 20613 => 0x10
  | 20634 => 2
  | 20648 => 20
  | 21760 => 0xA4
  | 21761 => 0x81
  | 21764 => 5
  | 21786 => 1
  | 21800 => 21
  | 81920 => 2
  | 81924 => 12
  | 81926 => 1
  | 81928 => 46
  | 81932 => 2
  | 81936 => 12
  | 81938 => 2
  | 81940 => 46
  | 81941 => 46
  | 81944 => 11
  | 81948 => 0xE8
  | 81949 => 0x0F
  | 81950 => 1
  | 81952 => 97
  | 86016 => 104
  | 86017 => 101
  | 86018 => 108
  | 86019 => 108
  | 86020 => 111
  | _ => 0

def treeDisk : Disk := pageDisk treeTable

def treeRecord (i : Nat) : Ext2DiskInode :=
  Ext2DiskInode.decode ((treeDisk.tail 20480).sub (i * 128) 128)

def treeRoot : VfsInode INodeData :=
  ((((NewINode.new 2 0).setIops .dir).setFops .dir).setAops .iomap).init
    (inodeParams (treeRecord 1) .dir (Offset.ofUInt64 (treeRecord 1).size.toUInt64))

def treeFile : VfsInode INodeData :=
  (((NewINode.new 11 0).setAops .iomap).setFops .regular).init
    (inodeParams (treeRecord 10) .reg (Offset.ofUInt64
      ((treeRecord 10).size.toUInt64 ||| ((treeRecord 10).dirAcl.toUInt64 <<< 32))))

theorem storedInode_treeRoot : pageExt2.storedInode treeDisk ⟨0, 0, true⟩ 2 = some treeRoot := rfl

theorem storedInode_treeFile : pageExt2.storedInode treeDisk ⟨0, 0, true⟩ 11 = some treeFile := rfl

theorem treeRoot_size : treeRoot.size.val = 4096 := by decide +kernel

theorem treeFile_size : treeFile.size.val = 5 := by decide +kernel

/-- The other records of the table are unused. -/
theorem treeDisk_unused : ∀ k : Fin 128, 10 < k.val →
    (Ext2DiskInode.fromBytes
      (treeDisk.tail (pageExt2.inodeBlockOffset ⟨3, 4, 5⟩ (UInt32.ofNat k.val)).toNat)
      (pageExt2.inodeStart (UInt32.ofNat k.val))).map stale = some true := by
  decide +kernel

theorem storedInode_treeDisk_cases {ino : UInt64} {inode : VfsInode INodeData}
    (h : pageExt2.storedInode treeDisk ⟨0, 0, true⟩ ino = some inode) : ino = 2 ∨ ino = 11 := by
  obtain ⟨hcast, g, offset, hlocate, hdecode⟩ := storedInode_eq_some h
  obtain ⟨hgroup, hoffset⟩ := locate_ok hlocate
  have hrange : ino.toUInt32.toNat = 2 ∨
      11 ≤ ino.toUInt32.toNat ∧ ino.toUInt32.toNat ≤ 128 := by
    rw [locate] at hlocate
    split at hlocate
    next => cases hlocate
    next hvalid =>
      rw [not_or, not_and_or, not_not] at hvalid
      obtain ⟨hroot | hfirst, hcount⟩ := hvalid
      · exact Or.inl (congrArg UInt32.toNat hroot)
      · exact Or.inr ⟨UInt32.le_iff_toNat_le.mp (UInt32.not_lt.mp hfirst),
          UInt32.le_iff_toNat_le.mp (UInt32.not_lt.mp hcount)⟩
  by_contra hneither
  rw [not_or] at hneither
  have hnumber : ∀ m : UInt32, ino ≠ m.toUInt64 → ino.toUInt32.toNat ≠ m.toNat := by
    intro m hne heq
    rw [UInt32.toNat_inj.mp heq] at hcast
    exact hne hcast.symm
  have hne := hnumber 2 hneither.1
  have hne' := hnumber 11 hneither.2
  have hbound : 11 < ino.toUInt32.toNat ∧ ino.toUInt32.toNat ≤ 128 := by
    have htwo : (2 : UInt32).toNat = 2 := rfl
    have heleven : (11 : UInt32).toNat = 11 := rfl
    omega
  have hminus : (ino.toUInt32 - 1).toNat = ino.toUInt32.toNat - 1 :=
    UInt32.toNat_sub_of_le _ _ (UInt32.le_iff_toNat_le.mpr (by show 1 ≤ _; omega))
  have hk : offset.toNat = ino.toUInt32.toNat - 1 := by
    rw [hoffset, UInt32.toNat_mod, hminus]
    exact Nat.mod_eq_of_lt (by show _ < 128; omega)
  have hg : g = ⟨3, 4, 5⟩ := by
    have hzero : ((ino.toUInt32 - 1) / pageExt2.inodesPerGroup).toNat = 0 := by
      rw [UInt32.toNat_div, hminus]
      exact Nat.div_eq_of_lt (by show _ < 128; omega)
    rw [hzero] at hgroup
    exact (Option.some.inj hgroup).symm
  have hunused := treeDisk_unused ⟨offset.toNat, by omega⟩ (by show 10 < offset.toNat; omega)
  rw [UInt32.ofNat_toNat, ← hg] at hunused
  obtain ⟨idata, hfrom, hstale⟩ := Option.map_eq_some_iff.mp hunused
  rw [decodeInode, hfrom] at hdecode
  simp only [hstale, if_true] at hdecode
  cases hdecode

theorem treeRoot_block : pageExt2.fileBlock treeDisk treeRoot.data 0 = some 20 := by decide +kernel

theorem treeFile_block : pageExt2.fileBlock treeDisk treeFile.data 0 = some 21 := by decide +kernel

def treeDir : Directory pageExt2 treeDisk where
  inode := treeRoot
  blocks := 1
  size_eq := treeRoot_size
  size_lt := by rw [treeRoot_size]; omega
  tiled := by
    intro j hj ptr hptr
    cases Nat.lt_one_iff.mp hj
    cases treeRoot_block.symm.trans hptr
    decide +kernel

theorem treeDir_records : treeDir.records =
    [(⟨2, 12, 1, 0⟩, [46]), (⟨2, 12, 2, 0⟩, [46, 46]), (⟨11, 4072, 1, 0⟩, [97])] := by
  decide +kernel

theorem treeDir_packed : treeDir.Packed := by
  have hblock : ∀ j < treeDir.blocks, j = 0 := fun j hj => Nat.lt_one_iff.mp hj
  have hrecords : pageExt2.blockRecords treeDisk treeDir.inode.data 0 =
      [(⟨2, 12, 1, 0⟩, [46]), (⟨2, 12, 2, 0⟩, [46, 46]), (⟨11, 4072, 1, 0⟩, [97])] := by
    decide +kernel
  refine ⟨⟨?_, ?_⟩, ?_⟩
  · intro j hj hnone
    rw [hblock j hj] at hnone
    cases treeRoot_block.symm.trans hnone
  · intro j hj r hr _
    rw [hblock j hj, hrecords] at hr
    cases hr
    decide
  · decide +kernel

theorem treeDisk_image : Image pageExt2 treeDisk ⟨0, 0, true⟩ where
  block := by decide
  directory := by
    intro ino inode h hdir
    rcases storedInode_treeDisk_cases h with rfl | rfl
    · cases storedInode_treeRoot.symm.trans h
      refine ⟨treeDir, rfl, treeDir_packed, ?_⟩
      intro r hr _
      rw [treeDir_records] at hr
      rcases List.mem_cons.mp hr with rfl | hr
      · exact ⟨treeRoot, storedInode_treeRoot⟩
      · rcases List.mem_cons.mp hr with rfl | hr
        · exact ⟨treeRoot, storedInode_treeRoot⟩
        · cases List.mem_singleton.mp hr
          exact ⟨treeFile, storedInode_treeFile⟩
    · cases storedInode_treeFile.symm.trans h
      cases hdir
  file := by
    intro ino inode h hreg
    rcases storedInode_treeDisk_cases h with rfl | rfl
    · cases storedInode_treeRoot.symm.trans h
      cases hreg
    · cases storedInode_treeFile.symm.trans h
      rw [treeFile_size]
      refine ⟨by decide, ?_⟩
      intro p hp
      have hzero : p / pageExt2.blockSize.toNat = 0 :=
        Nat.div_eq_of_lt (by show p < 4096; omega)
      rw [hzero, treeFile_block]
      exact Option.some_ne_none 21

/-- The path `a`, which is there, and `b`, which is not. -/
def nameA : Name := ⟨[97], List.cons_ne_nil _ _⟩

def nameB : Name := ⟨[98], List.cons_ne_nil _ _⟩

def treeCalls : List (FsCall INodeData) :=
  [.stat [nameA], .list [] 0 fun _ => true, .read [nameA] ⟨0, 4096, fun _ => 0⟩, .evict 11,
    .stat [nameB]]

theorem treeDisk_walkable (name : Name) :
    (pageExt2.tree treeDisk ⟨0, 0, true⟩).Walkable 2 [name] :=
  ⟨⟨name.2, treeRoot, storedInode_treeRoot, rfl⟩, fun _ _ => trivial⟩

theorem treeDisk_resolves {ino : UInt64}
    (h : (pageExt2.tree treeDisk ⟨0, 0, true⟩).resolve 2 [nameA] = some ino) : ino = 11 := by
  have hchild : (pageExt2.tree treeDisk ⟨0, 0, true⟩).child 2 nameA.1 = some 11 := by
    simp only [tree, storedInode_treeRoot, Option.bind_some]
    rw [show treeRoot = treeDir.inode from rfl, recordsOf_directory, treeDir_records]
    decide
  have hresolve : (pageExt2.tree treeDisk ⟨0, 0, true⟩).resolve 2 [nameA] = some 11 := by
    rw [FsTree.resolve, hchild]
    rfl
  exact (Option.some.inj (hresolve.symm.trans h)).symm

theorem ext2_tree_seen_small :
    ((fillSuper ⟨0, 0, true⟩).run ((pageExt2.imageMount treeDisk ⟨0, 0, true⟩).kernel .empty) []).1 =
        .done pageExt2 ∧
      ∃ replies m, (pageExt2.imageMount treeDisk ⟨0, 0, true⟩).run
          ⟨treeRoot, InodeCache.empty.insert treeRoot⟩ treeCalls = some (replies, m) ∧
        List.Forall₂ (pageExt2.tree treeDisk ⟨0, 0, true⟩).Answers treeCalls replies := by
  refine ⟨by rfl, (ext2_tree_seen treeDisk_image storedInode_treeRoot ?_).2⟩
  intro call hcall
  simp only [treeCalls, List.mem_cons, List.not_mem_nil, or_false] at hcall
  rcases hcall with rfl | rfl | rfl | rfl | rfl
  · exact treeDisk_walkable nameA
  · refine ⟨trivial, fun ino hino => ?_⟩
    cases Option.some.inj hino
    exact ⟨treeRoot, storedInode_treeRoot, rfl, 0, Nat.zero_le _, rfl⟩
  · refine ⟨treeDisk_walkable nameA, fun ino hino => ?_⟩
    cases treeDisk_resolves hino
    exact ⟨treeFile, storedInode_treeFile, rfl, by decide, by decide⟩
  · show (11 : UInt64) ≠ 2
    decide
  · exact treeDisk_walkable nameB

end Ext2Fs

end Rko
