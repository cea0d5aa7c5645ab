import Rko.Ext2BlockTree
import Rko.Ext2Records
import Rko.InterleavedSearch

namespace Rko

open CallProgram InterleavedSearch

namespace Ext2Fs

/-- The records of block `j` of a directory; a hole has none. -/
def blockRecords (s : Ext2Fs) (disk : Disk) (data : INodeData) (j : Nat) :
    List (Ext2DirEntry × List UInt8) :=
  match s.fileBlock disk data j with
  | some ptr => recordsFrom (disk.tail (ptr.toNat * s.blockSize.toNat)) s.blockSize.toNat
      s.blockSize.toNat 0
  | none => []

/-- A directory whose size is a whole number of blocks, each tiled by records. Ext2 keeps the
size of a directory in 32 bits. -/
structure Directory (s : Ext2Fs) (disk : Disk) where
  inode : VfsInode INodeData
  blocks : Nat
  size_eq : inode.size.val = blocks * s.blockSize.toNat
  size_lt : inode.size.val < 2 ^ 32
  tiled : ∀ j < blocks, ∀ ptr, s.fileBlock disk inode.data j = some ptr →
    tiledFrom (disk.tail (ptr.toNat * s.blockSize.toNat)) s.blockSize.toNat s.blockSize.toNat 0 = true

def Directory.records {s : Ext2Fs} {disk : Disk} (dir : Directory s disk) :
    List (Ext2DirEntry × List UInt8) :=
  (List.range dir.blocks).flatMap (s.blockRecords disk dir.inode.data)

/-- What the code makes of block `j`: it scans to the end of the page. -/
def blockOutcome (s : Ext2Fs) (disk : Disk) (data : INodeData) (name : List UInt8) (j : Nat) :
    Except Error (Option UInt32) :=
  if s.walkedBlock disk data j = 0 then .ok none
  else
    let d := disk.tail ((s.walkedBlock disk data j).toNat * s.blockSize.toNat)
    scanRecords d name d.len 0

/-- What scanning bytes that do not belong to the directory gives at block `j`: the rest of the
page after an own block, or a block reached through a zero pointer. -/
def foreignOutcome (s : Ext2Fs) (disk : Disk) (data : INodeData) (name : List UInt8) (j : Nat) :
    Except Error (Option UInt32) :=
  match s.fileBlock disk data j with
  | some ptr =>
    let d := disk.tail (ptr.toNat * s.blockSize.toNat)
    scanRecords d name d.len s.blockSize.toNat
  | none => s.blockOutcome disk data name j

theorem blockOutcome_eq {s : Ext2Fs} {disk : Disk} (hpage : s.blockSize.toNat ≤ PAGE_SIZE)
    (dir : Directory s disk) {name : List UInt8} (hname : name ≠ []) {j : Nat} (hj : j < dir.blocks) :
    s.blockOutcome disk dir.inode.data name j =
      ownThenForeign (fun j => firstNamed name (s.blockRecords disk dir.inode.data j))
        (s.foreignOutcome disk dir.inode.data name) j := by
  cases hb : s.fileBlock disk dir.inode.data j with
  | none => simp only [ownThenForeign, blockRecords, foreignOutcome, hb, firstNamed]
  | some ptr =>
    simp only [ownThenForeign, blockRecords, foreignOutcome, hb]
    obtain ⟨hwalk, hne⟩ := walkedBlock_of_fileBlock hb
    obtain ⟨hin, hmod, _⟩ := block_in_page hpage ptr.toNat
    simp only [blockOutcome, hwalk, if_neg hne]
    have hscan : (disk.tail (ptr.toNat * s.blockSize.toNat)).len ≤
        (disk.tail (ptr.toNat * s.blockSize.toNat)).len + 0 := Nat.le_refl _
    rw [scanRecords_tiled hname (by simp only [Disk.tail_base]; omega)
      (by simp only [Disk.tail_len]; omega) rfl (dir.tiled j hj ptr hb) hscan]
    cases firstNamed name (recordsFrom (disk.tail (ptr.toNat * s.blockSize.toNat))
      s.blockSize.toNat s.blockSize.toNat 0) <;> rfl

theorem block_lt_treeBlocks {s : Ext2Fs} {disk : Disk} (dir : Directory s disk) {j : Nat}
    (hj : j < dir.blocks) : j < treeBlocks (s.blockSize.toNat / 4) := by
  have hlt := dir.size_lt
  rw [dir.size_eq] at hlt
  obtain ⟨k, hk, hbs, hp⟩ := s.ptrs_eq
  have hsmall : dir.blocks < 2 ^ 22 := by
    have h1024 : 2 ^ 10 ≤ 2 ^ (10 + k) := Nat.pow_le_pow_right (by decide) (by omega)
    rw [← hbs] at h1024
    have hmul : dir.blocks * 2 ^ 10 ≤ dir.blocks * s.blockSize.toNat := Nat.mul_le_mul_left _ h1024
    omega
  have hbig : 2 ^ 24 ≤ treeBlocks (s.blockSize.toNat / 4) := by
    rw [hp]
    unfold treeBlocks
    interval_cases k <;> decide
  omega

section Positions

variable {s : Ext2Fs} {disk : Disk} (dir : Directory s disk) {j : Nat}

theorem Directory.position_lt (hj : j < dir.blocks) :
    ((j * s.blockSize.toNat : Nat) : Int) < dir.inode.size.val := by
  have hnext : (j + 1) * s.blockSize.toNat ≤ dir.blocks * s.blockSize.toNat :=
    Nat.mul_le_mul_right _ hj
  have hbs := s.blockSize_pos
  rw [dir.size_eq]
  rw [Nat.succ_mul] at hnext
  omega

theorem Directory.position_next (hj : j < dir.blocks) :
    (Offset.wrap (((j * s.blockSize.toNat : Nat) : Int) + s.blockSize.toNat)).val =
      (((j + 1) * s.blockSize.toNat : Nat) : Int) := by
  have hnext : (j + 1) * s.blockSize.toNat ≤ dir.blocks * s.blockSize.toNat :=
    Nat.mul_le_mul_right _ hj
  have hlt := dir.size_lt
  rw [dir.size_eq] at hlt
  rw [Nat.succ_mul] at hnext ⊢
  rw [Offset.wrap_val (by omega) (by omega)]
  push_cast
  rfl

theorem block_of_position (s : Ext2Fs) (j : Nat) :
    ((j * s.blockSize.toNat : Nat) : Int).tdiv s.blockSize.toNat = j := by
  have hnat : ((j * s.blockSize.toNat : Nat) : Int).tdiv s.blockSize.toNat =
      (j * s.blockSize.toNat / s.blockSize.toNat : Nat) := rfl
  rw [hnat, Nat.mul_div_cancel _ s.blockSize_pos]

end Positions

section Search

variable {s : Ext2Fs} {env : Kernel INodeData} {disk : Disk}

/-- One round of the loop, on a block inside the directory. -/
theorem searchBlocks_round (hd : ReadsDisk env disk) (hpage : s.blockSize.toNat ≤ PAGE_SIZE)
    (dir : Directory s disk) (name : List UInt8) {fuel j : Nat} (hj : j < dir.blocks)
    {js : List Nat}
    (hrest : Program.Returns env
      (s.searchBlocks dir.inode name fuel (((j + 1) * s.blockSize.toNat : Nat) : Int))
      (.ofExcept (firstOutcome (s.blockOutcome disk dir.inode.data name) js))) :
    Program.Returns env
      (s.searchBlocks dir.inode name (fuel + 1) ((j * s.blockSize.toNat : Nat) : Int))
      (.ofExcept (firstOutcome (s.blockOutcome disk dir.inode.data name) (j :: js))) := by
  rw [searchBlocks, if_pos (dir.position_lt hj), block_of_position, dir.position_next hj,
    firstOutcome]
  apply (offsetToBlock_returns hd hpage (block_lt_treeBlocks dir hj) dir.inode.data).bind
  by_cases hw : s.walkedBlock disk dir.inode.data j = 0
  · simp only [blockOutcome, hw, if_true]
    exact hrest
  · have hoff : (0 : Int) ≤ (s.walkedBlock disk dir.inode.data j).toNat * s.blockSize.toNat := by
      positivity
    have hmapped := mappedFolio_returns hd hoff
    have htoNat : ((s.walkedBlock disk dir.inode.data j).toNat * s.blockSize.toNat : Int).toNat =
        (s.walkedBlock disk dir.inode.data j).toNat * s.blockSize.toNat := by
      norm_cast
    rw [htoNat] at hmapped
    simp only [blockOutcome, hw, if_false, mt toUInt64_eq_zero.mp hw, UInt32.toNat_toUInt64]
    apply hmapped.bind
    generalize disk.tail ((s.walkedBlock disk dir.inode.data j).toNat * s.blockSize.toNat) = d
    rcases scanRecords d name d.len 0 with e | _ | ino
    · exact Program.Returns.fail env e
    · exact hrest
    · exact Program.Returns.done env (some ino)

theorem searchBlocks_returns (hd : ReadsDisk env disk) (hpage : s.blockSize.toNat ≤ PAGE_SIZE)
    (dir : Directory s disk) (name : List UInt8) {n fuel j : Nat} (hn : j + n = dir.blocks)
    (hfuel : n ≤ fuel) :
    Program.Returns env (s.searchBlocks dir.inode name fuel ((j * s.blockSize.toNat : Nat) : Int))
      (.ofExcept (firstOutcome (s.blockOutcome disk dir.inode.data name) (List.range' j n))) := by
  induction n generalizing fuel j with
  | zero =>
    have hend : ¬ ((j * s.blockSize.toNat : Nat) : Int) < dir.inode.size.val := by
      rw [dir.size_eq, ← hn, Nat.add_zero]
      push_cast
      omega
    cases fuel with
    | zero => exact Program.Returns.done env none
    | succ fuel =>
      rw [searchBlocks, if_neg hend]
      exact Program.Returns.done env none
  | succ n ih =>
    obtain ⟨fuel, rfl⟩ : ∃ m, fuel = m + 1 := ⟨fuel - 1, by omega⟩
    have hj : j < dir.blocks := by omega
    have hn' : j + 1 + n = dir.blocks := by omega
    have hfuel' : n ≤ fuel := by omega
    rw [List.range'_succ]
    exact searchBlocks_round hd hpage dir name hj (ih hn' hfuel')

end Search

theorem firstOutcome_congr {ι α ε : Type} {f g : ι → Except ε (Option α)} {js : List ι}
    (h : ∀ j ∈ js, f j = g j) : firstOutcome f js = firstOutcome g js := by
  induction js with
  | nil => rfl
  | cons j js ih =>
    rw [firstOutcome, firstOutcome, h j (List.mem_cons_self ..),
      ih fun i hi => h i (List.mem_cons_of_mem _ hi)]

theorem firstNamed_flatMap (name : List UInt8) (f : Nat → List (Ext2DirEntry × List UInt8))
    (js : List Nat) :
    firstNamed name (js.flatMap f) = js.findSome? fun j => firstNamed name (f j) := by
  induction js with
  | nil => rfl
  | cons j js ih =>
    rw [List.flatMap_cons, firstNamed_append, ih, List.findSome?_cons]
    cases firstNamed name (f j) <;> rfl

theorem search_returns {s : Ext2Fs} {env : Kernel INodeData} {disk : Disk}
    (hd : ReadsDisk env disk) (hpage : s.blockSize.toNat ≤ PAGE_SIZE) (dir : Directory s disk)
    {name : List UInt8} (hname : name ≠ []) :
    Program.Returns env (s.search dir.inode name) (.ofExcept (firstOutcome
      (ownThenForeign (fun j => firstNamed name (s.blockRecords disk dir.inode.data j))
        (s.foreignOutcome disk dir.inode.data name)) (List.range dir.blocks))) := by
  have hfuel : dir.blocks ≤ dir.inode.size.val.toNat + 1 := by
    have hle : dir.blocks ≤ dir.blocks * s.blockSize.toNat :=
      Nat.le_mul_of_pos_right _ s.blockSize_pos
    rw [dir.size_eq]
    omega
  have hsearch := searchBlocks_returns hd hpage dir name (Nat.zero_add _) hfuel
  rw [Nat.zero_mul, ← List.range_eq_range',
    firstOutcome_congr fun j hj => blockOutcome_eq hpage dir hname (List.mem_range.mp hj)] at hsearch
  exact hsearch

def NamesInodes (env : Kernel INodeData) : Prop :=
  ∀ h ino,
    match env h (.igetLocked ino) with
    | .null => True
    | .cached inode => inode.ino = ino
    | .fresh i _ => i = ino

theorem inodeType_ino {n n' : NewINode} {idata : Ext2DiskInode} {b : Slice} {start : Nat}
    {typ : INodeType} {size : Offset} (h : inodeType n idata b start = .ok (n', typ, size)) :
    n'.ino = n.ino := by
  unfold inodeType at h
  simp only at h
  split_ifs at h
  all_goals try (cases h; rfl)
  split at h
  · cases h
    rfl
  · cases h

theorem decodeInode_ino {s : Ext2Fs} {n : NewINode} {offset : UInt32} {b : Slice}
    {inode : VfsInode INodeData} (h : s.decodeInode n offset b = .ok inode) : inode.ino = n.ino := by
  unfold decodeInode at h
  split at h
  next => cases h
  next idata _ =>
    split at h
    next => cases h
    next =>
      split at h
      next => cases h
      next n' typ size htype =>
        cases h
        rw [NewINode.init_ino, inodeType_ino htype]

theorem iget_ino {s : Ext2Fs} {env : Kernel INodeData} (hnames : NamesInodes env) {ino : UInt32}
    {h : History INodeData} {inode : VfsInode INodeData}
    (hdone : ((s.iget ino).run env h).1 = .done inode) : inode.ino = ino.toUInt64 := by
  obtain ⟨⟨g, offset⟩, h', _, hdone⟩ := Program.run_bind_done hdone
  have hlocked := hnames h' ino.toUInt64
  cases hl : env h' (.igetLocked ino.toUInt64) with
  | null =>
    rw [igetWith_run_null hl] at hdone
    cases hdone
  | cached aref =>
    rw [igetWith_run_cached hl] at hdone
    cases hdone
    simpa only [hl] using hlocked
  | fresh i sb =>
    rw [igetWith_run_fresh hl] at hdone
    obtain ⟨b, _, _, hdecode⟩ := Program.run_bind_done (Program.run_onFail_done hdone)
    cases hd : s.decodeInode (.new i sb) offset b with
    | error e =>
      rw [hd] at hdecode
      cases hdecode
    | ok loaded =>
      rw [hd] at hdecode
      cases hdecode
      rw [hl] at hlocked
      exact (decodeInode_ino hd).trans hlocked

/-- `lookup` passes the inode numbered `ino` to `splice_alias`, or no inode at all. -/
def Binds (env : Kernel INodeData) (s : Ext2Fs) (parent : VfsInode INodeData) (name : List UInt8)
    (ino : Option UInt32) : Prop :=
  ∀ h, ∃ inode, ((s.findInode parent name).run env h).1 = .done inode ∧
    inode.map (·.ino) = ino.map UInt32.toUInt64

theorem toUInt64_map_inj {x y : Option UInt32} (h : x.map UInt32.toUInt64 = y.map UInt32.toUInt64) :
    x = y := by
  refine Option.map_injective (fun a b hab => ?_) h
  have hnat := congrArg UInt64.toNat hab
  simp only [UInt32.toNat_toUInt64] at hnat
  exact UInt32.toNat_inj.mp hnat

theorem binds_iff_of_search {s : Ext2Fs} {env : Kernel INodeData} {parent : VfsInode INodeData}
    {name : List UInt8} {found : Except Error (Option UInt32)} {expected : Option UInt32}
    (hsearch : Program.Returns env (s.search parent name) (.ofExcept found))
    (hnames : NamesInodes env)
    (higet : ∀ ino h, Program.Returns env (s.search parent name) (.done (some ino)) →
      ∃ inode, ((s.iget ino).run env h).1 = .done inode) :
    Binds env s parent name expected ↔ found = .ok expected := by
  constructor
  · intro hbinds
    obtain ⟨inode, hdone, hino⟩ := hbinds []
    obtain ⟨r, h', hr, hdone⟩ := Program.run_bind_done hdone
    have hfound := hsearch []
    rw [hr] at hfound
    cases found with
    | error e => cases hfound
    | ok r' =>
      cases hfound
      congr 1
      apply toUInt64_map_inj
      rw [← hino]
      cases r with
      | none =>
        cases hdone
        rfl
      | some ino =>
        obtain ⟨loaded, _, hload, hdone⟩ := Program.run_bind_done hdone
        cases hdone
        have hloaded := iget_ino hnames (congrArg Prod.fst hload)
        simp [hloaded]
  · rintro rfl h
    simp only [Outcome.ofExcept] at hsearch
    obtain ⟨h', hr⟩ : ∃ h', (s.search parent name).run env h = (.done expected, h') :=
      ⟨_, Prod.ext (hsearch h) rfl⟩
    simp only [findInode, Program.bind_eq, Program.run_bind, hr]
    cases expected with
    | none => exact ⟨none, rfl, rfl⟩
    | some ino =>
      obtain ⟨inode, hinode⟩ := higet ino h' hsearch
      obtain ⟨h'', hrun⟩ : ∃ h'', (s.iget ino).run env h' = (.done inode, h'') :=
        ⟨_, Prod.ext hinode rfl⟩
      refine ⟨some inode, ?_, by simp [iget_ino hnames hinode]⟩
      simp only [Program.run_bind, hrun]
      rfl

/-- The first outcome due to foreign bytes that a lookup of `name` meets before a match among the
directory's own records. -/
def Directory.disturbance {s : Ext2Fs} {disk : Disk} (dir : Directory s disk) (name : List UInt8) :
    Except Error (Option UInt32) :=
  firstForeign (fun j => firstNamed name (s.blockRecords disk dir.inode.data j))
    (s.foreignOutcome disk dir.inode.data name) (List.range dir.blocks)

/-- The foreign bytes that a lookup of `name` scans before it reaches the record that it looks for
hold no record of that name and no misaligned one, or happen to name the same inode. -/
def Directory.Undisturbed {s : Ext2Fs} {disk : Disk} (dir : Directory s disk) (name : List UInt8) :
    Prop :=
  dir.disturbance name = .ok none ∨ dir.disturbance name = .ok (firstNamed name dir.records)

section Foreign

variable {s : Ext2Fs} {disk disk' : Disk}

/-- Another device has the directory in the same blocks, with the same bytes in them. -/
structure Directory.SameBlocks (dir : Directory s disk) (disk' : Disk) : Prop where
  block : ∀ j < dir.blocks,
    s.fileBlock disk' dir.inode.data j = s.fileBlock disk dir.inode.data j
  bytes : ∀ j < dir.blocks, ∀ ptr, s.fileBlock disk dir.inode.data j = some ptr →
    ∀ i < s.blockSize.toNat,
      disk' (ptr.toNat * s.blockSize.toNat + i) = disk (ptr.toNat * s.blockSize.toNat + i)

/-- The directory on the other device. -/
def Directory.onto (dir : Directory s disk) (h : dir.SameBlocks disk') : Directory s disk' where
  inode := dir.inode
  blocks := dir.blocks
  size_eq := dir.size_eq
  size_lt := dir.size_lt
  tiled j hj ptr hptr :=
    have hown := (h.block j hj).symm.trans hptr
    (tiledFrom_congr (h.bytes j hj ptr hown) (dir.tiled j hj ptr hown)).1

theorem Directory.records_onto (dir : Directory s disk) (h : dir.SameBlocks disk') :
    (dir.onto h).records = dir.records := by
  apply List.flatMap_congr
  intro j hj
  have hj : j < dir.blocks := List.mem_range.mp hj
  show s.blockRecords disk' dir.inode.data j = s.blockRecords disk dir.inode.data j
  rw [blockRecords, blockRecords, h.block j hj]
  cases hptr : s.fileBlock disk dir.inode.data j with
  | none => rfl
  | some ptr => exact (tiledFrom_congr (h.bytes j hj ptr hptr) (dir.tiled j hj ptr hptr)).2

end Foreign

theorem binds_first_iff_undisturbed {s : Ext2Fs} {env : Kernel INodeData} {disk : Disk}
    (hd : ReadsDisk env disk) (hpage : s.blockSize.toNat ≤ PAGE_SIZE) (dir : Directory s disk)
    {name : List UInt8} (hname : name ≠ []) (hnames : NamesInodes env)
    (higet : ∀ ino h, Program.Returns env (s.search dir.inode name) (.done (some ino)) →
      ∃ inode, ((s.iget ino).run env h).1 = .done inode) :
    Binds env s dir.inode name (firstNamed name dir.records) ↔ dir.Undisturbed name := by
  have hsearch := search_returns hd hpage dir hname
  have hexpected : firstNamed name dir.records = (List.range dir.blocks).findSome?
      fun j => firstNamed name (s.blockRecords disk dir.inode.data j) :=
    firstNamed_flatMap _ _ _
  rw [Directory.Undisturbed, hexpected, Directory.disturbance, ← firstOutcome_eq_own_iff]
  generalize firstOutcome (ownThenForeign
    (fun j => firstNamed name (s.blockRecords disk dir.inode.data j))
    (s.foreignOutcome disk dir.inode.data name)) (List.range dir.blocks) = found at hsearch
  exact binds_iff_of_search hsearch hnames higet

/-- `lookup` binds the first live record of that name in the directory's own blocks exactly when
the foreign bytes it scans before reaching that record hold no record of that name and no
misaligned record, or happen to name the same inode. On a device that differs from this one in other
blocks only, `lookup` binds the same record exactly when the bytes there do not disturb it. -/
theorem lookup_binds_first_record_iff {s : Ext2Fs} {env : Kernel INodeData} {disk : Disk}
    (hd : ReadsDisk env disk) (hpage : s.blockSize.toNat ≤ PAGE_SIZE) (dir : Directory s disk)
    (dentry : Dentry) (hnames : NamesInodes env)
    (higet : ∀ ino h, Program.Returns env (s.search dir.inode dentry.name) (.done (some ino)) →
      ∃ inode, ((s.iget ino).run env h).1 = .done inode) :
    (Binds env s dir.inode dentry.name (firstNamed dentry.name dir.records) ↔
      dir.disturbance dentry.name = .ok none ∨
        dir.disturbance dentry.name = .ok (firstNamed dentry.name dir.records)) ∧
    ∀ {env' : Kernel INodeData} {disk' : Disk} (h : dir.SameBlocks disk'), ReadsDisk env' disk' →
      NamesInodes env' →
      (∀ ino h, Program.Returns env' (s.search dir.inode dentry.name) (.done (some ino)) →
        ∃ inode, ((s.iget ino).run env' h).1 = .done inode) →
      (Binds env' s dir.inode dentry.name (firstNamed dentry.name dir.records) ↔
        (dir.onto h).disturbance dentry.name = .ok none ∨
          (dir.onto h).disturbance dentry.name = .ok (firstNamed dentry.name dir.records)) := by
  refine ⟨binds_first_iff_undisturbed hd hpage dir dentry.name_ne hnames higet, ?_⟩
  intro env' disk' h hd' hnames' higet'
  have hbinds := binds_first_iff_undisturbed hd' hpage (dir.onto h) dentry.name_ne hnames' higet'
  rw [Directory.Undisturbed, dir.records_onto h] at hbinds
  exact hbinds

/-- Block 20 holds the records `.` and `..` of inode 2, and block 21, which shares the page but
belongs to another directory, a record `x` of inode 13. -/
def twoBlocks : Disk
  | 20480 => 2
  | 20484 => 12
  | 20486 => 1
  | 20488 => 46
  | 20492 => 2
  | 20496 => 0xF4
  | 20497 => 3
  | 20498 => 2
  | 20500 => 46
  | 20501 => 46
  | 21504 => 13
  | 21509 => 4
  | 21510 => 1
  | 21512 => 120
  | _ => 0

def smallDir : Directory smallExt2 (smallDisk twoBlocks) where
  inode := (NewINode.new 2 0).init
    { mode := 0o755, typ := .dir, size := ⟨1024, by decide, by decide⟩, blocks := 2, nlink := 2,
      uid := 0, gid := 0, ctime := ⟨0, 0⟩, mtime := ⟨0, 0⟩, atime := ⟨0, 0⟩,
      value := ⟨Vector.ofFn fun i => if i.val = 0 then 20 else 0⟩ }
  blocks := 1
  size_eq := by decide
  size_lt := by decide
  tiled := by
    intro j hj ptr hptr
    obtain rfl : j = 0 := by omega
    have hblock : smallExt2.fileBlock (smallDisk twoBlocks)
        ⟨Vector.ofFn fun i => if i.val = 0 then 20 else 0⟩ 0 = some 20 := by decide
    cases hblock.symm.trans hptr
    decide +kernel

def cachingKernel : Kernel INodeData :=
  diskKernel (smallDisk twoBlocks) fun ino => .cached { smallDir.inode with ino := ino }

/-- The device with another name in block 21. -/
def renamedDisk : Disk := fun offset => if offset = 21512 then 121 else smallDisk twoBlocks offset

def renamedKernel : Kernel INodeData :=
  diskKernel renamedDisk fun ino => .cached { smallDir.inode with ino := ino }

theorem smallDir_block {j : Nat} (hj : j < smallDir.blocks) :
    smallExt2.fileBlock (smallDisk twoBlocks) smallDir.inode.data j = some 20 ∧
      smallExt2.fileBlock renamedDisk smallDir.inode.data j = some 20 := by
  obtain rfl : j = 0 := Nat.lt_one_iff.mp hj
  decide

theorem smallDir_renamed : smallDir.SameBlocks renamedDisk where
  block j hj := (smallDir_block hj).2.trans (smallDir_block hj).1.symm
  bytes j hj ptr hptr i hi := by
    cases (smallDir_block hj).1.symm.trans hptr
    have hi : i < 1024 := hi
    have hother : (20 : UInt32).toNat * smallExt2.blockSize.toNat + i ≠ 21512 := by
      show 20480 + i ≠ 21512
      omega
    exact if_neg hother

theorem lookup_binds_dot :
    Binds cachingKernel smallExt2 smallDir.inode [46] (firstNamed [46] smallDir.records) ∧
      Binds renamedKernel smallExt2 smallDir.inode [46] (firstNamed [46] smallDir.records) := by
  have hsearch : ((smallExt2.search smallDir.inode [46]).run cachingKernel []).1 =
      .done (some 2) := by decide +kernel
  have hsearch' : ((smallExt2.search smallDir.inode [46]).run renamedKernel []).1 =
      .done (some 2) := by decide +kernel
  have hd : ReadsDisk cachingKernel (smallDisk twoBlocks) := diskKernel_reads _ _
  have hd' : ReadsDisk renamedKernel renamedDisk := diskKernel_reads _ _
  obtain ⟨hown, hother⟩ := lookup_binds_first_record_iff hd (by decide) smallDir
    ⟨0, [46], by decide⟩ (fun _ _ => rfl) (by
      intro ino h hreturns
      cases hsearch.symm.trans (hreturns [])
      exact ⟨_, rfl⟩)
  have hrenamed := hother smallDir_renamed hd' (fun _ _ => rfl) (by
    intro ino h hreturns
    cases hsearch'.symm.trans (hreturns [])
    exact ⟨_, rfl⟩)
  exact ⟨hown.mpr (Or.inl (by decide +kernel)), hrenamed.mpr (Or.inl (by decide +kernel))⟩

/-- Looking up `x` in the directory binds inode 13 of the neighbouring block, though no record
of the directory is called `x`. -/
theorem lookup_binds_foreign_record :
    ((fillSuper ⟨0, 0, true⟩).run cachingKernel []).1 = .done smallExt2 ∧
      firstNamed [120] smallDir.records = none ∧
      Binds cachingKernel smallExt2 smallDir.inode [120] (some 13) ∧
      ¬ Binds cachingKernel smallExt2 smallDir.inode [120] (firstNamed [120] smallDir.records) := by
  have hnone : firstNamed [120] smallDir.records = none := by decide +kernel
  have hrun : ∀ h, ((smallExt2.findInode smallDir.inode [120]).run cachingKernel h).1 =
      .done (some { smallDir.inode with ino := 13 }) := fun _ => rfl
  refine ⟨by rfl, hnone, fun h => ⟨_, hrun h, rfl⟩, fun hbinds => ?_⟩
  obtain ⟨inode, hinode, hino⟩ := hbinds []
  rw [hrun] at hinode
  cases hinode
  rw [hnone] at hino
  cases hino

end Ext2Fs

end Rko
