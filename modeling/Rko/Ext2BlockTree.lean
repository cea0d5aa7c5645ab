import Mathlib.Tactic.IntervalCases
import Rko.Ext2BlockPath

namespace Rko

open CallProgram

/-- The pointer at the end of a path through tables of pointers, unless one of the pointers on
the way is zero. -/
def pathPointer (disk : Disk) (bs : Nat) : UInt32 → List Nat → Option UInt32
  | ptr, [] => if ptr = 0 then none else some ptr
  | ptr, i :: path =>
    if ptr = 0 then none else pathPointer disk bs (disk.le32 (ptr.toNat * bs + 4 * i)) path

/-- The pointer at the end of the path when a zero pointer is followed like any other. -/
def walkedPointer (disk : Disk) (bs : Nat) : UInt32 → List Nat → UInt32
  | ptr, [] => ptr
  | ptr, i :: path => walkedPointer disk bs (disk.le32 (ptr.toNat * bs + 4 * i)) path

theorem walkedPointer_of_pathPointer {disk : Disk} {bs : Nat} {ptr q : UInt32} {path : List Nat}
    (h : pathPointer disk bs ptr path = some q) : walkedPointer disk bs ptr path = q ∧ q ≠ 0 := by
  induction path generalizing ptr with
  | nil =>
    simp only [pathPointer] at h
    split at h
    next => cases h
    next hne =>
      cases Option.some.inj h
      exact ⟨rfl, hne⟩
  | cons i path ih =>
    simp only [pathPointer] at h
    split at h
    next => cases h
    next => exact ih h

namespace Ext2Fs

/-- The disk block that holds block `block` of a file, or `none` for a hole. -/
def fileBlock (s : Ext2Fs) (disk : Disk) (data : INodeData) (block : Nat) : Option UInt32 :=
  match blockPath (s.blockSize.toNat / 4) block with
  | some (i :: path) => pathPointer disk s.blockSize.toNat (data.dataBlocks[i]?.getD 0) path
  | _ => none

def walkedBlock (s : Ext2Fs) (disk : Disk) (data : INodeData) (block : Nat) : UInt32 :=
  match blockPath (s.blockSize.toNat / 4) block with
  | some (i :: path) => walkedPointer disk s.blockSize.toNat (data.dataBlocks[i]?.getD 0) path
  | _ => 0

theorem walkedBlock_of_fileBlock {s : Ext2Fs} {disk : Disk} {data : INodeData} {block : Nat}
    {q : UInt32} (h : s.fileBlock disk data block = some q) :
    s.walkedBlock disk data block = q ∧ q ≠ 0 := by
  unfold fileBlock at h
  unfold walkedBlock
  split at h
  next => exact walkedPointer_of_pathPointer h
  next => cases h

theorem ptrs_eq (s : Ext2Fs) : ∃ k, k ≤ 6 ∧ s.blockSize.toNat = 2 ^ (10 + k) ∧
    s.blockSize.toNat / 4 = 2 ^ (8 + k) := by
  obtain ⟨k, hk, hbs⟩ := s.blockSize_pow
  exact ⟨k, hk, hbs, div_four_of_pow hbs⟩

theorem blockSize_pos (s : Ext2Fs) : 0 < s.blockSize.toNat := by
  obtain ⟨k, -, hbs⟩ := s.blockSize_pow
  rw [hbs]
  exact Nat.two_pow_pos _

theorem block_in_page {s : Ext2Fs} (hpage : s.blockSize.toNat ≤ PAGE_SIZE) (n : Nat) :
    n * s.blockSize.toNat % PAGE_SIZE + s.blockSize.toNat ≤ PAGE_SIZE ∧
      n * s.blockSize.toNat % PAGE_SIZE % 1024 = 0 ∧ 1024 ≤ s.blockSize.toNat := by
  obtain ⟨k, hk, hbs, _⟩ := s.ptrs_eq
  rw [hbs] at hpage ⊢
  unfold PAGE_SIZE at *
  interval_cases k <;> simp_all <;> omega

theorem walkTables_returns {s : Ext2Fs} {env : Kernel INodeData} {disk : Disk}
    (hd : ReadsDisk env disk) (hpage : s.blockSize.toNat ≤ PAGE_SIZE) (path : List UInt32)
    (hpath : ∀ i ∈ path, i.toNat < s.blockSize.toNat / 4) (ptr : UInt32) :
    Program.Returns env (s.walkTables path ptr)
      (.done (walkedPointer disk s.blockSize.toNat ptr (path.map UInt32.toNat))) := by
  induction path generalizing ptr with
  | nil => exact Program.Returns.done env _
  | cons i path ih =>
    obtain ⟨hin, hmod, hlow⟩ := block_in_page hpage ptr.toNat
    have hi := hpath i (List.mem_cons_self ..)
    have hpos : (0 : Int) ≤ ptr.toNat * s.blockSize.toNat := by positivity
    have hoff : ((ptr.toNat : Int) * s.blockSize.toNat).toNat = ptr.toNat * s.blockSize.toNat := by
      norm_cast
    have hmapped := mappedFolio_returns hd hpos
    rw [hoff] at hmapped
    have htable := Slice.fromBytesToSlice_eq_some 4 4
      (s := disk.tail (ptr.toNat * s.blockSize.toNat)) (by decide)
      (by simp only [Disk.tail_len]; unfold PAGE_SIZE at *; omega)
      (by simp only [Disk.tail_base]; omega)
    have hlen : i.toNat < (disk.tail (ptr.toNat * s.blockSize.toNat)).len / 4 := by
      simp only [Disk.tail_len]
      unfold PAGE_SIZE at *
      omega
    apply hmapped.bind
    simp only [htable, Program.ofOption_some, Program.bind_eq, Program.done_bind]
    rw [List.getElem?_map, List.getElem?_range hlen]
    have hentry : ((disk.tail (ptr.toNat * s.blockSize.toNat)).sub (i.toNat * 4) 4).le32 0 =
        disk.le32 (ptr.toNat * s.blockSize.toNat + 4 * i.toNat) := by
      rw [Slice.sub_le32, Disk.tail_le32]
      congr 1
      omega
    simp only [Option.map_some, hentry]
    exact ih (fun j hj => hpath j (List.mem_cons_of_mem _ hj)) _

/-- `offset_to_block` arrives at the walked block of every index within the tree. -/
theorem offsetToBlock_returns {s : Ext2Fs} {env : Kernel INodeData} {disk : Disk}
    (hd : ReadsDisk env disk) (hpage : s.blockSize.toNat ≤ PAGE_SIZE) {block : Nat}
    (hblock : block < treeBlocks (s.blockSize.toNat / 4)) (data : INodeData) :
    Program.Returns env (s.offsetToBlock data block)
      (.done (s.walkedBlock disk data block).toUInt64) := by
  obtain ⟨k, hk, hbs, hp⟩ := s.ptrs_eq
  obtain ⟨_, hb2, hb3⟩ := ptrs_bounds hk
  have hcast : (UInt64.ofInt block).toNat = block := by
    have hlt : block < 2 ^ 64 := by
      rw [hp] at hblock
      unfold treeBlocks at hblock
      omega
    rw [toNat_ofInt (by omega) (by omega), Int.toNat_natCast]
  obtain ⟨first, path, hpath, hfirst, hrest⟩ :=
    blockPath_eq_some (by rw [hp]; exact Nat.two_pow_pos _) hblock
  have hoffsets := offsets_path hk hbs (UInt64.ofInt block)
  rw [hcast, ← hp, hpath] at hoffsets
  obtain ⟨indices, hindices, hmap⟩ := Option.map_eq_some_iff.mp hoffsets
  obtain ⟨i, rest, rfl, hi, hr⟩ := List.map_eq_cons_iff.mp hmap
  unfold offsetToBlock walkedBlock
  simp only [hindices, hpath, Program.ofOption_some, Program.bind_eq, Program.done_bind]
  rw [hi, Vector.getElem?_eq_getElem hfirst]
  have hwalk := walkTables_returns hd hpage rest
    (fun j hj => hrest _ (hr ▸ List.mem_map_of_mem hj)) (data.dataBlocks[first])
  rw [hr] at hwalk
  exact hwalk.bind (Program.Returns.done env _)

/-- What `begin` has to say about the block that contains `pos`. -/
def DescribesBlock (s : Ext2Fs) (disk : Disk) (data : INodeData) (pos : Nat) (map : IoMap) : Prop :=
  match s.fileBlock disk data (pos / s.blockSize.toNat) with
  | none => map.type = .hole
  | some ptr => map.type = .mapped ∧ map.offset = pos / s.blockSize.toNat * s.blockSize.toNat ∧
      map.length.toNat = s.blockSize.toNat ∧ map.addr.toNat = s.blockSize.toNat * ptr.toNat

theorem iomapBegin_returns {s : Ext2Fs} {env : Kernel INodeData} {disk : Disk}
    (hd : ReadsDisk env disk) (hpage : s.blockSize.toNat ≤ PAGE_SIZE) (inode : VfsInode INodeData)
    (pos : Nat) (hpos : pos < inode.size.val)
    (hblock : pos / s.blockSize.toNat < treeBlocks (s.blockSize.toNat / 4))
    (sb : SuperBlock) (length : Int) (map : IoMap) :
    Program.Returns env (s.iomapBegin sb inode pos length map) (.done { map with
      offset := (pos / s.blockSize.toNat : Nat) * s.blockSize.toNat
      length := s.blockSize.toUInt64
      flags := IoMap.MERGED
      type := .mapped
      bdev := sb.bdev
      addr := (s.walkedBlock disk inode.data (pos / s.blockSize.toNat)).toUInt64 *
        s.blockSize.toUInt64 }) := by
  have hdiv : (pos : Int).tdiv s.blockSize.toNat = (pos / s.blockSize.toNat : Nat) := rfl
  rw [iomapBegin, if_neg (by omega)]
  simp only [hdiv]
  exact (offsetToBlock_returns hd hpage hblock inode.data).bind (Program.Returns.done env _)

/-- `begin` describes the block at `pos` as the tree of pointers has it exactly when no pointer
on the path is zero: a hole is always reported as mapped. -/
theorem iomapBegin_describes_block_iff {s : Ext2Fs} {env : Kernel INodeData} {disk : Disk}
    (hd : ReadsDisk env disk) (hpage : s.blockSize.toNat ≤ PAGE_SIZE) (inode : VfsInode INodeData)
    (pos : Nat) (hpos : pos < inode.size.val)
    (hblock : pos / s.blockSize.toNat < treeBlocks (s.blockSize.toNat / 4))
    (sb : SuperBlock) (length : Int) (map : IoMap) :
    (∃ result, Program.Returns env (s.iomapBegin sb inode pos length map) (.done result) ∧
        s.DescribesBlock disk inode.data pos result) ↔
      s.fileBlock disk inode.data (pos / s.blockSize.toNat) ≠ none := by
  have hreturns := iomapBegin_returns hd hpage inode pos hpos hblock sb length map
  constructor
  · rintro ⟨result, hresult, hdescribes⟩ hhole
    cases hreturns.unique hresult
    simp [DescribesBlock, hhole] at hdescribes
  · intro hsome
    obtain ⟨ptr, hptr⟩ := Option.ne_none_iff_exists'.mp hsome
    refine ⟨_, hreturns, ?_⟩
    have hprod : ptr.toNat * s.blockSize.toNat < 2 ^ 64 := by
      have h1 := ptr.toNat_lt
      have h2 := s.blockSize.toNat_lt
      calc ptr.toNat * s.blockSize.toNat ≤ 2 ^ 32 * s.blockSize.toNat :=
            Nat.mul_le_mul_right _ h1.le
        _ < 2 ^ 32 * 2 ^ 32 := Nat.mul_lt_mul_of_pos_left h2 (by decide)
        _ = 2 ^ 64 := by decide
    simp only [DescribesBlock, hptr, (walkedBlock_of_fileBlock hptr).1, UInt64.toNat_mul,
      UInt32.toNat_toUInt64, Nat.mod_eq_of_lt hprod, true_and]
    exact ⟨by push_cast; rfl, Nat.mul_comm _ _⟩

def plainFile (dataBlocks : Vector UInt32 EXT2_N_BLOCKS) : VfsInode INodeData :=
  (NewINode.new 12 0).init
    { mode := 0o644, typ := .reg, size := ⟨4096, by decide, by decide⟩, blocks := 8, nlink := 1,
      uid := 0, gid := 0, ctime := ⟨0, 0⟩, mtime := ⟨0, 0⟩, atime := ⟨0, 0⟩, value := ⟨dataBlocks⟩ }

theorem iomapBegin_describes_first_block :
    ∃ result, Program.Returns (diskKernel (smallDisk fun _ => 0) fun _ => .null)
        (smallExt2.iomapBegin ⟨0, 0, true⟩ (plainFile (Vector.replicate _ 20)) (0 : Nat) 1024
          ⟨.hole, 0, 0, 0, 0, 0⟩) (.done result) ∧
      smallExt2.DescribesBlock (smallDisk fun _ => 0) ⟨Vector.replicate _ 20⟩ 0 result :=
  (iomapBegin_describes_block_iff (diskKernel_reads _ _) (by decide)
    (plainFile (Vector.replicate _ 20)) 0 (by decide) (by decide) ⟨0, 0, true⟩ 1024
    ⟨.hole, 0, 0, 0, 0, 0⟩).mpr (by decide)

/-- The first block of a file without blocks is a hole, but is mapped to device block 0. -/
theorem iomapBegin_maps_hole_to_block_zero :
    ((fillSuper ⟨0, 0, true⟩).run (diskKernel (smallDisk fun _ => 0) fun _ => .null) []).1 =
        .done smallExt2 ∧
      ((smallExt2.iomapBegin ⟨0, 0, true⟩ (plainFile (Vector.replicate _ 0)) (0 : Nat) 1024
          ⟨.hole, 0, 0, 0, 0, 0⟩).run (diskKernel (smallDisk fun _ => 0) fun _ => .null) []).1 =
        .done ⟨.mapped, 0, 1024, IoMap.MERGED, 0, 0⟩ ∧
      smallExt2.fileBlock (smallDisk fun _ => 0) ⟨Vector.replicate _ 0⟩ 0 = none ∧
      ¬ smallExt2.DescribesBlock (smallDisk fun _ => 0) ⟨Vector.replicate _ 0⟩ 0
        ⟨.mapped, 0, 1024, IoMap.MERGED, 0, 0⟩ := by
  have hhole : smallExt2.fileBlock (smallDisk fun _ => 0) ⟨Vector.replicate _ 0⟩
      (0 / smallExt2.blockSize.toNat) = none := by decide
  refine ⟨by rfl, by decide, by decide, ?_⟩
  unfold DescribesBlock
  rw [hhole]
  decide

end Ext2Fs

end Rko
