import Rko.DirListing
import Rko.TarfsLookup

namespace Rko.TarFs

open CallProgram RangeCut

/-- A directory whose table and names lie inside the device. -/
structure Table (data : TarFsData) (disk : Disk) where
  inode : VfsInode InodeData
  count : Nat
  size_eq : inode.size.val = ((count * 32 : Nat) : Int)
  offset_mod : inode.data.offset.toNat % 32 = 0
  table_le : inode.data.offset.toNat + count * 32 ≤ data.dataSize.toNat
  names : ∀ e ∈ tableEntries disk inode.data.offset.toNat count, e.nameLen.toNat ≤ 256 ∧
    e.nameOffset.toNat + e.nameLen.toNat ≤ data.dataSize.toNat

def DirEntry.listed (disk : Disk) (e : DirEntry) : Listed :=
  ⟨storedBytes disk e.nameOffset.toNat e.nameLen.toNat, e.ino, entryType e.etype⟩

/-- What the table says is to be listed. -/
def Table.listed {data : TarFsData} {disk : Disk} (dir : Table data disk) : List Listed :=
  (tableEntries disk dir.inode.data.offset.toNat dir.count).map (DirEntry.listed disk)

section

variable {env : Kernel InodeData} {disk : Disk} {size : Nat}

/-- The callback that copies a part of a name into the buffer. -/
def namePage (n : Nat) (buf : Nat × (Nat → UInt8)) (page : Slice) :
    Prog InodeData ((Nat × (Nat → UInt8)) × Option Unit) :=
  pure (copyName n buf page, none)

/-- The bytes of the name copied so far are those of the device. -/
def Copied (disk : Disk) (o : Nat) (buf : Nat × (Nat → UInt8)) : Prop :=
  ∀ i < buf.1, buf.2 i = disk (o + i)

theorem copyName_copied {n o k : Nat} {buf : Nat × (Nat → UInt8)} (hbuf : Copied disk o buf)
    (hk : buf.1 + k ≤ n) :
    let buf' := copyName n buf ((disk.tail (o + buf.1)).sub 0 k)
    buf'.1 = buf.1 + k ∧ Copied disk o buf' := by
  intro buf'
  have hlen : min ((disk.tail (o + buf.1)).sub 0 k).len (n - buf.1) = k := by
    rw [Slice.sub_len]
    omega
  have hfst : buf'.1 = buf.1 + k := by
    show buf.1 + min _ _ = _
    rw [hlen]
  refine ⟨hfst, fun i hi => ?_⟩
  rw [hfst] at hi
  show (if buf.1 ≤ i ∧ i < buf.1 + min _ _ then _ else _) = _
  rw [hlen]
  by_cases hold : i < buf.1
  · rw [if_neg (by omega)]
    exact hbuf i hold
  · rw [if_pos ⟨by omega, hi⟩, Slice.sub_byte, Disk.tail_byte]
    congr 1
    omega

/-- The whole name is in the buffer before it is emitted. -/
theorem name_unseen (hd : ReadsWithin env disk size) (hsize : size < 2 ^ 63) {e : DirEntry}
    (hname : e.nameOffset.toNat + e.nameLen.toNat ≤ size) :
    ∃ buf : Nat → UInt8,
      (List.range e.nameLen.toNat).map buf =
        storedBytes disk e.nameOffset.toNat e.nameLen.toNat ∧
      Program.Unseen Listed.ofEvent env
        (forEachPage (Offset.ofUInt64 e.nameOffset).val e.nameLen.toNat (namePage e.nameLen.toNat)
          (0, fun _ => 0)) ((e.nameLen.toNat, buf), none) := by
  rw [Offset.ofUInt64_val (by omega)]
  generalize e.nameOffset.toNat = o at hname ⊢
  generalize e.nameLen.toNat = n at hname ⊢
  -- Between the pieces, the walk stands right behind the bytes copied so far.
  have hstep : ∀ {a k : Nat} {buf : Nat × (Nat → UInt8)}, a + k ≤ o + n →
      a % PAGE_SIZE + k ≤ PAGE_SIZE → a = o + buf.1 ∧ Copied disk o buf →
      ∃ buf', namePage n buf ((disk.tail a).sub 0 k) = pure (buf', none) ∧
        a + k = o + buf'.1 ∧ Copied disk o buf' := by
    rintro _ k buf hle - ⟨rfl, hbuf⟩
    obtain ⟨hfst, hcopied⟩ := copyName_copied hbuf (by omega : buf.1 + k ≤ n)
    exact ⟨_, rfl, by omega, hcopied⟩
  have hempty : Copied disk o (0, fun _ => 0) := fun i hi => absurd hi (Nat.not_lt_zero i)
  obtain ⟨⟨k, buf⟩, ⟨hk, hcopied⟩, hvisit⟩ : ∃ buf : Nat × (Nat → UInt8),
      (o + n = o + buf.1 ∧ Copied disk o buf) ∧
      Program.Unseen Listed.ofEvent env
        (visit (fun s p mapped => namePage n s (mapped.sub 0 p.2)) (pieces PAGE_SIZE o n)
          (0, fun _ => 0)) (buf, none) :=
    visit_completes (I := fun a (buf : Nat × (Nat → UInt8)) => a = o + buf.1 ∧ Copied disk o buf) hd
      (fun _ => rfl) hname hstep (pieces_tiles (by decide) o n) le_rfl ⟨rfl, hempty⟩
  obtain rfl : n = k := Nat.add_left_cancel hk
  refine ⟨buf, List.map_congr_left fun i hi => hcopied i (List.mem_range.mp hi), ?_⟩
  rw [forEachPage_eq_visit _ (by omega)]
  exact hvisit

/-- What is done with the answer of `dir_emit`. -/
def afterEmit (es : List DirEntry) (pos : Int) : Option Int → Prog InodeData (Int × Option Unit)
  | some emitted => readDirEntries es emitted
  | none => pure (pos, some ())

theorem readDirEntries_cons {e : DirEntry} (hlen : e.nameLen.toNat ≤ 256) (es : List DirEntry)
    (pos : Int) :
    readDirEntries (e :: es) pos =
      (forEachPage (Offset.ofUInt64 e.nameOffset).val e.nameLen.toNat (namePage e.nameLen.toNat)
        (0, fun _ => 0)).bind fun r =>
          (emit pos 32 ((List.range e.nameLen.toNat).map r.1.2) e.ino (entryType e.etype)).bind
            (afterEmit es pos) := by
  rw [readDirEntries, if_neg (by omega)]
  rfl

/-- The entries of a page are emitted in their order up to the first that is refused, if one is, and
the position counts those that were not. -/
theorem readDirEntries_run (hd : ReadsWithin env disk size) (hsize : size < 2 ^ 63)
    {es : List DirEntry}
    (hes : ∀ e ∈ es, e.nameLen.toNat ≤ 256 ∧ e.nameOffset.toNat + e.nameLen.toNat ≤ size)
    {pos : Nat} (hpos : pos + es.length * 32 < 2 ^ 63) (h : History InodeData) :
    ∃ k h', k ≤ es.length ∧ (TakesAll env → k = es.length) ∧
      (readDirEntries es (pos : Int)).run env h =
        (.done (((pos + k * 32 : Nat) : Int), if k = es.length then none else some ()), h') ∧
      accepted h' = accepted h ++ (es.take k).map (DirEntry.listed disk) := by
  induction es generalizing pos h with
  | nil => exact ⟨0, h, le_rfl, fun _ => rfl, rfl, by simp⟩
  | cons e es ih =>
    obtain ⟨hlen, hname⟩ := hes e List.mem_cons_self
    rw [List.length_cons] at hpos
    obtain ⟨buf, hbuf, hread⟩ := name_unseen hd hsize hname
    obtain ⟨h₁, hrun, hseen⟩ := hread.run_bind (fun r =>
      (emit pos 32 ((List.range e.nameLen.toNat).map r.1.2) e.ino (entryType e.etype)).bind
        (afterEmit es pos)) h
    have hfirst : accepted h₁ = accepted h := hseen
    rw [readDirEntries_cons hlen, hrun, hbuf]
    have hnext : (pos : Int) + 32 = ((pos + 32 : Nat) : Int) := (Int.natCast_add pos 32).symm
    rcases emit_cases hnext (by omega) (storedBytes disk e.nameOffset.toNat e.nameLen.toNat) e.ino
      (entryType e.etype) h₁ with ⟨h₂, haccepted, hemit⟩ | ⟨hrefuses, h₂, haccepted, hemit⟩
    · have hpos' : pos + 32 + es.length * 32 < 2 ^ 63 := by omega
      obtain ⟨k, h', hk, hall, hrest, hlisted⟩ :=
        ih (fun e' he' => hes e' (List.mem_cons_of_mem _ he')) hpos' h₂
      refine ⟨k + 1, h', Nat.succ_le_succ hk, fun htakes => congrArg Nat.succ (hall htakes), ?_, ?_⟩
      · rw [hemit, afterEmit, hrest]
        simp only [List.length_cons, Nat.add_right_cancel_iff]
        congr 4
        ring
      · rw [hlisted, haccepted, hfirst, List.take_succ_cons, List.map_cons, List.append_assoc]
        rfl
    · refine ⟨0, h₂, Nat.zero_le _, fun htakes => absurd htakes hrefuses, ?_, ?_⟩
      · rw [hemit]
        rfl
      · rw [haccepted, hfirst, List.take_zero, List.map_nil, List.append_nil]

/-- The callback of `read_dir`. -/
def listPage (pos : Int) (page : Slice) : Prog InodeData (Int × Option Unit) := do
  let entries ← Program.ofOption Error.EIO (DirEntry.fromBytesToSlice page)
  readDirEntries entries pos

theorem visitList_run (hd : ReadsWithin env disk size) (hsize : size < 2 ^ 63) {next len n : Nat}
    {ps : List (Nat × Nat)} (htiles : Tiles PAGE_SIZE next len ps) (hlen : len = n * 32)
    (hnext : next % 32 = 0) (hend : next + n * 32 ≤ size)
    (hes : ∀ e ∈ tableEntries disk next n, e.nameLen.toNat ≤ 256 ∧
      e.nameOffset.toNat + e.nameLen.toNat ≤ size)
    {pos : Nat} (hpos : pos + n * 32 < 2 ^ 63) (h : History InodeData) :
    ∃ k ret h', k ≤ n ∧ (TakesAll env → k = n) ∧
      (visit (fun s p mapped => listPage s (mapped.sub 0 p.2)) ps (pos : Int)).run env h =
        (.done (((pos + k * 32 : Nat) : Int), ret), h') ∧
      accepted h' = accepted h ++ ((tableEntries disk next n).take k).map (DirEntry.listed disk) := by
  induction htiles generalizing n pos h with
  | nil next => exact ⟨0, none, h, Nat.zero_le n, fun _ => by omega, rfl, by simp⟩
  | @cons next piece m ps positive inside full tiles ih =>
    obtain ⟨c, rest, rfl, rfl, rfl⟩ := entries_of_piece hnext hlen full
    rw [tableEntries_append] at hes ⊢
    have hcount := length_tableEntries disk next c
    have hread : accepted (h ++ [pageRead disk next]) = accepted h := by
      rw [accepted, List.filterMap_append]
      exact List.append_nil _
    obtain ⟨k, h₁, hk, hall, hpage, hlisted⟩ := readDirEntries_run hd hsize
      (fun e he => hes e (List.mem_append_left _ he)) (by omega : pos + _ * 32 < 2 ^ 63)
      (h ++ [pageRead disk next])
    rw [hcount] at hk hall hpage
    rw [hread] at hlisted
    rw [visit_cons_run (hd.readsBetween next) _ (Nat.le_refl next) (by show next < size; omega),
      listPage, fromBytesToSlice_tail disk hnext, Program.ofOption_some, Program.bind_eq,
      Program.done_bind, Program.run_bind, hpage]
    rcases Nat.lt_or_ge k c with hlt | hge
    · rw [if_neg hlt.ne]
      refine ⟨k, some (), h₁, by omega, fun htakes => absurd (hall htakes) hlt.ne, rfl, ?_⟩
      rw [hlisted, List.take_append_of_le_length (by omega)]
    · obtain rfl : k = c := le_antisymm hk hge
      obtain ⟨j, ret, h₂, hj, hrest, hrun, hothers⟩ := ih rfl (by omega) (by omega)
        (fun e he => hes e (List.mem_append_right _ he))
        (by omega : pos + k * 32 + rest * 32 < 2 ^ 63) h₁
      refine ⟨k + j, ret, h₂, by omega, fun htakes => congrArg (k + ·) (hrest htakes), ?_, ?_⟩
      · rw [if_pos rfl]
        refine hrun.trans ?_
        congr 4
        ring
      · have htake : (tableEntries disk next k ++ tableEntries disk (next + k * 32) rest).take
            (k + j) = tableEntries disk next k ++
              (tableEntries disk (next + k * 32) rest).take j := by
          rw [List.take_append, hcount, Nat.add_sub_cancel_left,
            List.take_of_length_le (hcount.le.trans (Nat.le_add_right k j))]
        rw [htake, hothers, hlisted, List.take_of_length_le hcount.le, List.append_assoc,
          List.map_append]

end

section Calls

variable {env : Kernel InodeData} {data : TarFsData} {disk : Disk} (dir : Table data disk)

theorem Table.entries_drop {k : Nat} (hk : k ≤ dir.count) :
    tableEntries disk dir.inode.data.offset.toNat dir.count =
      tableEntries disk dir.inode.data.offset.toNat k ++
        tableEntries disk (dir.inode.data.offset.toNat + k * 32) (dir.count - k) := by
  rw [← tableEntries_append, Nat.add_sub_cancel' hk]

/-- The rest of the table, after `k` entries. -/
theorem Table.drop_listed {k : Nat} (hk : k ≤ dir.count) :
    dir.listed.drop k =
      (tableEntries disk (dir.inode.data.offset.toNat + k * 32) (dir.count - k)).map
        (DirEntry.listed disk) := by
  have hcount := length_tableEntries disk dir.inode.data.offset.toNat k
  rw [Table.listed, dir.entries_drop hk, ← List.map_drop, List.drop_left' hcount]

theorem Table.listed_drop {k : Nat} (hk : k ≤ dir.count) (j : Nat) :
    dir.listed.take (k + j) = dir.listed.take k ++
      ((tableEntries disk (dir.inode.data.offset.toNat + k * 32) (dir.count - k)).take j).map
        (DirEntry.listed disk) := by
  rw [List.take_add, dir.drop_listed hk, List.map_take]

theorem readDir_at_end {pos : Nat} (hmod : pos % 32 = 0) (hend : dir.inode.size.val ≤ pos) :
    readDir data dir.inode (pos : Int) = Program.done (pos : Int) := by
  have hvalid : ¬ ((pos : Int) < 0 ∨ (pos : Int) % 32 ≠ 0) := by omega
  rw [readDir, if_neg hvalid, if_pos hend]
  rfl

/-- A call that starts inside the table, as a walk over the pages of the rest. -/
theorem readDir_eq_visit (hdev : data.dataSize.toNat < 2 ^ 63) {k : Nat}
    (hk : k < dir.count) :
    readDir data dir.inode ((k * 32 : Nat) : Int) =
      (visit (fun s p mapped => listPage s (mapped.sub 0 p.2))
        (pieces PAGE_SIZE (dir.inode.data.offset.toNat + k * 32) ((dir.count - k) * 32))
        ((k * 32 : Nat) : Int)).bind fun r => pure r.1 := by
  have htable := dir.table_le
  have hsize : (UInt64.ofInt dir.inode.size.val).toNat = dir.count * 32 := by
    rw [dir.size_eq, toNat_ofInt (by omega) (by omega), Int.toNat_natCast]
  have hvalid : ¬ (((k * 32 : Nat) : Int) < 0 ∨ ((k * 32 : Nat) : Int) % 32 ≠ 0) := by omega
  have hmore : ¬ ((k * 32 : Nat) : Int) ≥ dir.inode.size.val := by
    rw [dir.size_eq]
    omega
  have hinside : ¬ (dir.inode.data.offset.toNat + dir.count * 32 ≥ 2 ^ 64 ∨
      dir.inode.data.offset.toNat + dir.count * 32 > data.dataSize.toNat) := by omega
  have hstart : (Offset.wrap ((Offset.ofUInt64 dir.inode.data.offset).val +
      ((k * 32 : Nat) : Int))).val = ((dir.inode.data.offset.toNat + k * 32 : Nat) : Int) := by
    have hoffset : (Offset.ofUInt64 dir.inode.data.offset).val =
        (dir.inode.data.offset.toNat : Int) := Offset.ofUInt64_val (by omega)
    rw [hoffset, Offset.wrap_val (by omega) (by omega)]
    push_cast
    rfl
  have hlength : dir.inode.size.val - ((k * 32 : Nat) : Int) =
      (((dir.count - k) * 32 : Nat) : Int) := by
    rw [dir.size_eq]
    omega
  rw [readDir, if_neg hvalid, if_neg hmore, hsize, if_neg hinside, hstart, hlength,
    forEachPage_eq_visit _ (by omega)]
  rfl

/-- A call goes on behind the entries that were accepted before it. -/
theorem readDir_run (hdev : data.dataSize.toNat < 2 ^ 63)
    (hd : ReadsWithin env disk data.dataSize.toNat) {k : Nat} (hk : k < dir.count)
    (h : History InodeData) :
    ∃ j h', k + j ≤ dir.count ∧ (TakesAll env → k + j = dir.count) ∧
      (readDir data dir.inode ((k * 32 : Nat) : Int)).run env h =
        (.done (((k + j) * 32 : Nat) : Int), h') ∧
      accepted h' = accepted h ++
        ((tableEntries disk (dir.inode.data.offset.toNat + k * 32) (dir.count - k)).take j).map
          (DirEntry.listed disk) := by
  have htable := dir.table_le
  have hmod := dir.offset_mod
  have hnames : ∀ e ∈ tableEntries disk (dir.inode.data.offset.toNat + k * 32) (dir.count - k),
      e.nameLen.toNat ≤ 256 ∧ e.nameOffset.toNat + e.nameLen.toNat ≤ data.dataSize.toNat := by
    intro e he
    refine dir.names e ?_
    rw [dir.entries_drop hk.le]
    exact List.mem_append_right _ he
  obtain ⟨j, ret, h', hj, hall, hrun, haccepted⟩ := visitList_run hd hdev
    (pieces_tiles (by decide) _ _) rfl
    (by omega : (dir.inode.data.offset.toNat + k * 32) % 32 = 0) (by omega) hnames
    (by omega : k * 32 + (dir.count - k) * 32 < 2 ^ 63) h
  refine ⟨j, h', by omega, fun htakes => ?_, ?_, haccepted⟩
  · have hj' := hall htakes
    omega
  · rw [readDir_eq_visit dir hdev hk, Program.run_bind, hrun]
    show (Outcome.done _, h') = _
    congr 3
    omega

end Calls

/-- Whatever `dir_emit` refuses, and in whatever call, the entries accepted so far are those of the
table up to the position. -/
theorem readDir_lists_table {env : Kernel InodeData} {data : TarFsData} {disk : Disk}
    (dir : Table data disk) (hdev : data.dataSize.toNat < 2 ^ 63)
    (hd : ReadsWithin env disk data.dataSize.toNat) (n : Nat) :
    ∃ (pos : Nat) (h : History InodeData),
      readDirCalls (readDir data dir.inode) env n = (.done (pos : Int), h) ∧ pos % 32 = 0 ∧
      accepted h = dir.listed.take (pos / 32) ∧
      (dir.inode.size.val ≤ pos →
        ∀ h', (readDir data dir.inode (pos : Int)).run env h' = (.done (pos : Int), h')) := by
  have hat : ∀ k, dir.inode.size.val ≤ ((k * 32 : Nat) : Int) → ∀ h',
      (readDir data dir.inode ((k * 32 : Nat) : Int)).run env h' =
        (.done ((k * 32 : Nat) : Int), h') := by
    intro k hend h'
    rw [readDir_at_end dir (Nat.mul_mod_left k 32) hend]
    rfl
  obtain ⟨k, h, hk, hcalls, haccepted⟩ : ∃ (k : Nat) (h : History InodeData), k ≤ dir.count ∧
      readDirCalls (readDir data dir.inode) env n = (.done ((k * 32 : Nat) : Int), h) ∧
      accepted h = dir.listed.take k := by
    induction n with
    | zero => exact ⟨0, [], Nat.zero_le _, rfl, rfl⟩
    | succ n ih =>
      obtain ⟨k, h, hk, hcalls, haccepted⟩ := ih
      rw [readDirCalls, hcalls]
      rcases Nat.lt_or_ge k dir.count with hlt | hge
      · obtain ⟨j, h', hj, -, hrun, hnew⟩ := readDir_run dir hdev hd hlt h
        refine ⟨k + j, h', hj, hrun, ?_⟩
        rw [hnew, haccepted, dir.listed_drop hk]
      · have hend : dir.inode.size.val ≤ ((k * 32 : Nat) : Int) := by
          rw [dir.size_eq]
          omega
        exact ⟨k, h, hk, hat k hend h, haccepted⟩
  refine ⟨k * 32, h, hcalls, Nat.mul_mod_left k 32, ?_, hat k⟩
  rw [haccepted, Nat.mul_div_cancel k (by decide)]

def Directory.table {data : TarFsData} {disk : Disk} (dir : Directory data disk) :
    Table data disk where
  inode := dir.inode
  count := dir.count
  size_eq := dir.size_eq
  offset_mod := dir.offset_mod
  table_le := dir.table_le
  names := fun e he => ⟨(dir.names e he).1.trans (by decide), (dir.names e he).2⟩

def isEmit : KernelCall → Bool
  | .dirEmit _ _ _ _ => true
  | _ => false

/-- A kernel that refuses every second entry it is offered. -/
def refusingKernel : Kernel InodeData
  | h, .dirEmit _ _ _ _ => decide ((h.countP fun ev => isEmit ev.1) % 2 = 0)
  | h, op => edgeKernel tarDisk 4096 8 h op

theorem readDir_lists_in_two_calls :
    ReadsWithin refusingKernel tarDisk 4096 ∧
      (readDirCalls (readDir tarData tarDir.inode) refusingKernel 1).1 = .done 32 ∧
      (readDirCalls (readDir tarData tarDir.inode) refusingKernel 2).1 = .done 64 ∧
      accepted (readDirCalls (readDir tarData tarDir.inode) refusingKernel 2).2 =
        tarDir.table.listed := by
  have hreads : ReadsWithin refusingKernel tarDisk 4096 := by
    intro h index hin
    simp only [refusingKernel, edgeKernel, steadyKernel, hin, if_true]
  have htwo : (readDirCalls (readDir tarData tarDir.inode) refusingKernel 2).1 = .done 64 := by
    decide +kernel
  obtain ⟨pos, h, hcalls, -, haccepted, -⟩ :=
    readDir_lists_table tarDir.table (by decide) hreads 2
  have hcalls' : readDirCalls (readDir tarData tarDir.inode) refusingKernel 2 =
    (.done (pos : Int), h) := hcalls
  rw [hcalls'] at htwo
  obtain rfl : pos = 64 := by
    have := Outcome.done.inj htwo
    omega
  refine ⟨hreads, by decide +kernel, by rw [hcalls']; rfl, ?_⟩
  rw [hcalls', haccepted]
  exact List.take_of_length_le (by decide)

end Rko.TarFs
