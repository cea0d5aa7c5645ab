import Rko.Ext2Groups
import Rko.FolioGeometry

namespace Rko

open CallProgram RangeCut

/-- A descriptor with all its fields. -/
structure Ext2Descriptor where
  blockBitmap : UInt32
  inodeBitmap : UInt32
  inodeTable : UInt32
  freeBlocksCount : UInt16
  freeInodesCount : UInt16
  usedDirsCount : UInt16
  pad : UInt16
  reserved : Vector UInt32 3
deriving DecidableEq, Repr

namespace Ext2Descriptor

def decode (d : Slice) : Ext2Descriptor where
  blockBitmap := d.le32 0
  inodeBitmap := d.le32 4
  inodeTable := d.le32 8
  freeBlocksCount := d.le16 12
  freeInodesCount := d.le16 14
  usedDirsCount := d.le16 16
  pad := d.le16 18
  reserved := Vector.ofFn fun i => d.le32 (20 + 4 * i)

/-- The fields that are read after the mount. -/
def group (d : Ext2Descriptor) : Ext2Group := ⟨d.blockBitmap, d.inodeBitmap, d.inodeTable⟩

theorem group_decode (d : Slice) : (decode d).group = Ext2Group.decode d := rfl

/-- Only the 32 bytes of the record matter. -/
theorem decode_congr {a b : Slice} (h : ∀ i < 32, a.byte i = b.byte i) : decode a = decode b := by
  have hle16 : ∀ off, off + 2 ≤ 32 → a.le16 off = b.le16 off := fun _ hoff => Slice.le16_congr h hoff
  have hle32 : ∀ off, off + 4 ≤ 32 → a.le32 off = b.le32 off := fun _ hoff => Slice.le32_congr h hoff
  have hreserved : (Vector.ofFn fun i : Fin 3 => a.le32 (20 + 4 * i)) =
      Vector.ofFn fun i : Fin 3 => b.le32 (20 + 4 * i) := by
    congr 1
    funext i
    exact hle32 _ (by omega)
  rw [decode, decode, hreserved]
  simp (disch := decide) only [hle16, hle32]

end Ext2Descriptor

/-- The bytes of the device from `address` on, as a record of `size` bytes. -/
def Disk.record (disk : Disk) (address size : Nat) : Slice :=
  ⟨address % PAGE_SIZE, size, fun i => disk (address + i)⟩

namespace Ext2Fs

variable {α β : Type}

/-- The loop of `fill_super` over the descriptors, with the records as `decode` makes them. -/
def readTable (decode : Slice → α) : Nat → Nat → Int → List α → Prog INodeData (List α)
  | 0, _, _, table => pure table
  | fuel + 1, remain, gdOffset, table =>
    if remain = 0 then pure table
    else do
      let b ← mappedFolio gdOffset
      let records ← Program.ofOption Error.EIO (Slice.fromBytesToSlice 32 4 b)
      readTable decode fuel (remain - records.length) (gdOffset + b.len)
        (table ++ (records.map decode).take remain)

section Map

theorem readTable_map (f : α → β) (decode : Slice → α) (n remain : Nat) (gdOffset : Int)
    (table : List α) :
    readTable (f ∘ decode) n remain gdOffset (table.map f) =
      (readTable decode n remain gdOffset table).bind fun table => pure (table.map f) := by
  induction n generalizing remain gdOffset table with
  | zero => rfl
  | succ n ih =>
    rw [readTable, readTable]
    split
    next => rfl
    next =>
      simp only [Program.bind_eq, Program.bind_assoc]
      congr 1
      funext b
      congr 1
      funext records
      rw [← ih]
      simp only [List.map_append, List.map_take, List.map_map]

theorem readGroups_eq_readTable (n remain : Nat) (gdOffset : Int) (groups : List Ext2Group) :
    readGroups n remain gdOffset groups =
      readTable Ext2Group.decode n remain gdOffset groups := by
  induction n generalizing remain gdOffset groups with
  | zero => rfl
  | succ n ih =>
    rw [readGroups, readTable]
    split
    next => rfl
    next =>
      simp only [Program.bind_eq]
      congr 1
      funext b
      unfold Ext2Group.fromBytesToSlice
      cases Slice.fromBytesToSlice 32 4 b with
      | none => rfl
      | some records =>
        simp only [Option.map_some, Program.ofOption_some, Program.done_bind, List.length_map, ih]

/-- The descriptors of a mounted file system were read with all their fields. -/
theorem GroupsRead.table {env : Kernel INodeData} {s : Ext2Super} {fs : Ext2Fs}
    (hread : GroupsRead env s fs) :
    ∃ h₁ h₂ table, (readTable Ext2Descriptor.decode (groupCount s).toNat (groupCount s).toNat
        ((SB_OFFSET / fs.blockSize.toNat + 1) * fs.blockSize.toNat) []).run env h₁ =
          (.done table, h₂) ∧ fs.groups = table.map Ext2Descriptor.group := by
  obtain ⟨h₁, h₂, hrun⟩ := hread
  have hmap := readTable_map Ext2Descriptor.group Ext2Descriptor.decode (groupCount s).toNat
    (groupCount s).toNat ((SB_OFFSET / fs.blockSize.toNat + 1) * fs.blockSize.toNat) []
  have hdecode : Ext2Descriptor.group ∘ Ext2Descriptor.decode = Ext2Group.decode :=
    funext Ext2Descriptor.group_decode
  rw [hdecode, List.map_nil] at hmap
  rw [readGroups_eq_readTable, hmap] at hrun
  obtain ⟨table, h₃, htable, hdone⟩ := Program.run_bind_done (congrArg Prod.fst hrun)
  exact ⟨h₁, h₃, table, htable, (Outcome.done.inj hdone).symm⟩

end Map

section Reading

variable {env : Kernel INodeData} {disk : Disk} {h : History INodeData} {decode : Slice → α}

/-- The records of a page are those of the device. -/
theorem records_of_page (hdecode : ∀ a b : Slice, (∀ i < 32, a.byte i = b.byte i) → decode a = decode b)
    {o : Nat} {b : Slice} {records : List Slice} (hbytes : ∀ i < b.len, b.byte i = disk (o + i))
    (hrecords : Slice.fromBytesToSlice 32 4 b = some records) :
    records.map decode = span (fun j => decode (disk.record (o + 32 * j) 32)) 0 (b.len / 32) := by
  unfold Slice.fromBytesToSlice at hrecords
  split at hrecords
  next => cases hrecords
  next =>
    split at hrecords
    next => cases hrecords
    next =>
      cases Option.some.inj hrecords
      rw [span, List.map_map]
      apply List.map_congr_left
      intro j hj
      have hlt : j < b.len / 32 := List.mem_range.mp hj
      show decode (b.sub (j * 32) 32) = decode (disk.record (o + 32 * (0 + j)) 32)
      apply hdecode
      intro i hi
      have hplace : o + (j * 32 + i) = o + 32 * (0 + j) + i := by omega
      rw [Slice.sub_byte, hbytes _ (by omega), hplace]
      rfl

/-- The loop reads one record after the other, over the ends of the pages. -/
theorem readTable_run
    (hdecode : ∀ a b : Slice, (∀ i < 32, a.byte i = b.byte i) → decode a = decode b)
    (hd : ReadsPages env disk) {base n remain k : Nat} (hn : remain ≤ n)
    (haligned : (base + 32 * k) % 1024 = 0) {table result : List α}
    (hrun : ((readTable decode n remain (base + 32 * k : Nat) table).run env h).1 = .done result) :
    result = table ++ span (fun j => decode (disk.record (base + 32 * j) 32)) k remain := by
  induction n generalizing remain k table h with
  | zero =>
    have hzero : remain = 0 := Nat.le_zero.mp hn
    rw [← Outcome.done.inj hrun, hzero, span_zero, List.append_nil]
  | succ n ih =>
    rw [readTable] at hrun
    split at hrun
    next hzero =>
      rw [← Outcome.done.inj hrun, hzero, span_zero, List.append_nil]
    next hne =>
      obtain ⟨b, h₁, hmapped, hrun⟩ := Program.run_bind_done hrun
      obtain ⟨records, h₂, hoption, hrun⟩ := Program.run_bind_done hrun
      have hrecords : Slice.fromBytesToSlice 32 4 b = some records :=
        (Program.ensures_ofOption _ fun _ h => h).run_done (congrArg Prod.fst hoption)
      obtain ⟨-, -, hlen, hbytes⟩ := hd.mappedFolio (congrArg Prod.fst hmapped)
      have hpage : PAGE_SIZE = 4096 := rfl
      rw [Int.toNat_natCast] at hlen hbytes
      rw [hpage] at hlen
      have hcount := Slice.length_of_fromBytesToSlice hrecords
      have hmap := records_of_page hdecode hbytes hrecords
      obtain ⟨c, hc⟩ : ∃ c, b.len = 32 * c := ⟨b.len / 32, by omega⟩
      have hcpos : 1 ≤ c := by omega
      have hdiv : b.len / 32 = c := by omega
      have hnext : ((base + 32 * k : Nat) : Int) + b.len = (base + 32 * (k + c) : Nat) := by omega
      have hspan : records.map decode =
          span (fun j => decode (disk.record (base + 32 * j) 32)) k c := by
        rw [hmap, hdiv, span_eq_iff]
        intro i _
        have hplace : base + 32 * k + 32 * (0 + i) = base + 32 * (k + i) := by omega
        rw [hplace]
      rw [hcount, hdiv, hnext, hspan, span_take] at hrun
      rw [ih (by omega) (by omega) hrun, List.append_assoc]
      by_cases hmore : c ≤ remain
      · rw [Nat.min_eq_right hmore, span_append, Nat.add_sub_cancel' hmore]
      · rw [Nat.min_eq_left (by omega), Nat.sub_eq_zero_of_le (by omega), span_zero,
          List.append_nil]

variable {fs : Ext2Fs}

/-- Where the table of descriptors begins: in the block after the superblock. -/
def tableStart (fs : Ext2Fs) : Nat := (1024 / fs.blockSize.toNat + 1) * fs.blockSize.toNat

theorem tableStart_cast (fs : Ext2Fs) :
    (SB_OFFSET / fs.blockSize.toNat + 1) * fs.blockSize.toNat = (fs.tableStart : Int) := by
  rw [tableStart, SB_OFFSET]
  norm_cast

theorem tableStart_aligned (fs : Ext2Fs) : fs.tableStart % 1024 = 0 := by
  obtain ⟨k, -, hk⟩ := fs.blockSize_pow
  have hdvd : 1024 ∣ fs.blockSize.toNat := by
    rw [hk, Nat.pow_add]
    exact Nat.dvd_mul_right _ _
  exact Nat.mod_eq_zero_of_dvd (Nat.dvd_mul_left_of_dvd hdvd _)

/-- After a successful mount there are as many descriptors as groups, and each is the record of the
device at its place in the table, wherever the table begins and however many pages it takes. -/
theorem fillSuper_reads_table {sb : SuperBlock} (hd : ReadsPages env disk)
    (hrun : ((fillSuper sb).run env h).1 = .done fs) :
    ∃ s h₀ h₁ h₂ table, Panicking.readSuper.run env h = (.done s, h₀) ∧
      (readTable Ext2Descriptor.decode (groupCount s).toNat (groupCount s).toNat
        ((SB_OFFSET / fs.blockSize.toNat + 1) * fs.blockSize.toNat) []).run env h₁ =
          (.done table, h₂) ∧
      fs.groups = table.map Ext2Descriptor.group ∧ table.length = (groupCount s).toNat ∧
      ∀ i < (groupCount s).toNat, table[i]? = some (Ext2Descriptor.decode
        (disk.record ((1024 / fs.blockSize.toNat + 1) * fs.blockSize.toNat + 32 * i) 32)) := by
  rw [← Panicking.fillSuper_eq] at hrun
  obtain ⟨s, h₀, hsuper, hmount⟩ := Program.run_bind_done hrun
  obtain ⟨-, hread, -⟩ := mountSuper_done hmount
  obtain ⟨h₁, h₂, table, htable, hgroups⟩ := hread.table
  refine ⟨s, h₀, h₁, h₂, table, hsuper, htable, hgroups, ?_⟩
  have haligned : (fs.tableStart + 32 * 0) % 1024 = 0 := fs.tableStart_aligned
  rw [tableStart_cast] at htable
  have hspan := readTable_run (fun _ _ => Ext2Descriptor.decode_congr) hd
    (Nat.le_refl (groupCount s).toNat) haligned (congrArg Prod.fst htable)
  rw [List.nil_append] at hspan
  refine ⟨by rw [hspan, span_length], fun i hi => ?_⟩
  rw [hspan, span, List.getElem?_map, List.getElem?_range hi, Option.map_some, Nat.zero_add]
  rfl

theorem fillSuper_reads_table_manyGroups :
    ∃ (fs : Ext2Fs) (table : List Ext2Descriptor),
      ((fillSuper ⟨0, 0, true⟩).run manyGroupsKernel []).1 = .done fs ∧ fs.groups = manyGroups ∧
      fs.groups = table.map Ext2Descriptor.group ∧ table.length = 66 ∧
      ∀ i < 66, table[i]? =
        some (Ext2Descriptor.decode (manyGroupsDisk.record (2048 + 32 * i) 32)) := by
  obtain ⟨fs, hmount, hsize, hmany⟩ := mount_manyGroups
  obtain ⟨s, h₀, h₁, h₂, table, hsuper, -, hgroups, hlength, htable⟩ :=
    fillSuper_reads_table (diskKernel_reads manyGroupsDisk _).readsPages hmount
  have hs := (congrArg Prod.fst hsuper).symm.trans readSuper_manyGroups
  cases hs
  rw [hsize] at htable
  exact ⟨fs, table, hmount, hmany, hgroups, hlength, htable⟩

end Reading

end Ext2Fs

end Rko
