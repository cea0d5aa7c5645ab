import Rko.Ext2BlockTree

namespace Rko.Ext2Fs

open CallProgram

/-- How much of `len` bytes from `pos` on lies in the mapping. -/
def covered (map : IoMap) (pos len : Nat) : Nat :=
  min (map.offset + map.length.toNat - pos).toNat len

/-- The bytes of a file that a mapping tells the kernel to use. -/
def mappedBytes (disk : Disk) (map : IoMap) (pos n : Nat) : List UInt8 :=
  match map.type with
  | .mapped => (List.range n).map fun i => disk (map.addr.toNat + (pos - map.offset).toNat + i)
  | _ => List.replicate n 0

/-- The kernel's `iomap_iter` over `len` bytes of a file from `pos` on, one call of `begin` after
the other. A mapping that does not cover the position is an error. -/
def readMappings (s : Ext2Fs) (sb : SuperBlock) (disk : Disk) (inode : VfsInode INodeData) :
    Nat → Nat → Nat → Prog INodeData (List UInt8)
  | _, _, 0 => pure []
  | 0, _, _ + 1 => Program.abort
  | fuel + 1, pos, len + 1 => do
    let map ← s.iomapBegin sb inode pos (len + 1 : Nat) ⟨.hole, 0, 0, 0, 0, 0⟩
    let n := covered map pos (len + 1)
    if n = 0 then Program.fail Error.EIO
    else do
      let rest ← s.readMappings sb disk inode fuel (pos + n) (len + 1 - n)
      pure (mappedBytes disk map pos n ++ rest)

/-- What a read of the range may show: below the end of the file the byte of the block that the
walk through the pointers arrives at, and zeros from the first block behind the end on. -/
structure ReadAs (s : Ext2Fs) (disk : Disk) (inode : VfsInode INodeData) (pos : Nat)
    (bytes : List UInt8) : Prop where
  inside : ∀ i < bytes.length, (pos + i : Nat) < inode.size.val →
    bytes[i]? = some (disk ((s.walkedBlock disk inode.data ((pos + i) / s.blockSize.toNat)).toNat *
      s.blockSize.toNat + (pos + i) % s.blockSize.toNat))
  behind : ∀ i < bytes.length,
    inode.size.val ≤ ((pos + i) / s.blockSize.toNat * s.blockSize.toNat : Nat) →
    bytes[i]? = some 0

section

variable {s : Ext2Fs} {env : Kernel INodeData} {disk : Disk} {inode : VfsInode INodeData}
  {sb : SuperBlock} {pos len : Nat}

theorem readAs_nil (pos : Nat) : ReadAs s disk inode pos [] :=
  ⟨fun i hi => absurd hi (Nat.not_lt_zero i), fun i hi => absurd hi (Nat.not_lt_zero i)⟩

theorem ReadAs.append {bytes rest : List UInt8} (h : ReadAs s disk inode pos bytes)
    (hrest : ReadAs s disk inode (pos + bytes.length) rest) :
    ReadAs s disk inode pos (bytes ++ rest) := by
  have hindex : ∀ i, ¬ i < bytes.length → pos + bytes.length + (i - bytes.length) = pos + i := by
    intro i hi
    omega
  constructor
  · intro i hi hin
    rw [List.length_append] at hi
    by_cases hfirst : i < bytes.length
    · rw [List.getElem?_append_left hfirst]
      exact h.inside i hfirst hin
    · rw [List.getElem?_append_right (by omega), ← hindex i hfirst]
      rw [← hindex i hfirst] at hin
      exact hrest.inside _ (by omega) hin
  · intro i hi hout
    rw [List.length_append] at hi
    by_cases hfirst : i < bytes.length
    · rw [List.getElem?_append_left hfirst]
      exact h.behind i hfirst hout
    · rw [List.getElem?_append_right (by omega)]
      rw [← hindex i hfirst] at hout
      exact hrest.behind _ (by omega) hout

/-- A mapping by which a read of `len` bytes at `pos` gets on, and what it reads there. -/
structure Supplies (s : Ext2Fs) (disk : Disk) (inode : VfsInode INodeData) (pos len : Nat)
    (map : IoMap) : Prop where
  covers : 0 < covered map pos len
  reads : ReadAs s disk inode pos (mappedBytes disk map pos (covered map pos len))

@[simp] theorem length_mappedBytes (map : IoMap) (n : Nat) :
    (mappedBytes disk map pos n).length = n := by
  unfold mappedBytes
  split
  next => rw [List.length_map, List.length_range]
  next => rw [List.length_replicate]

theorem covered_le (map : IoMap) : covered map pos len ≤ len := Nat.min_le_right _ _

/-- Behind the end of the file one hole covers the whole rest of the range. -/
theorem supplies_hole (hlen : 0 < len) (hfits : len < 2 ^ 64) (hend : inode.size.val ≤ pos)
    (map : IoMap) (htype : map.type = .hole) (hoffset : map.offset = pos)
    (hlength : map.length = UInt64.ofInt len) : Supplies s disk inode pos len map := by
  have hbytes : map.length.toNat = len := by
    have hmod : (len : Int) % 2 ^ 64 = len := by omega
    rw [hlength, UInt64.ofInt, hmod, Int.toNat_natCast, UInt64.toNat_ofNat_of_lt' hfits]
  have hcovered : covered map pos len = len := by
    rw [covered, hoffset, hbytes]
    omega
  have hzeros : mappedBytes disk map pos len = List.replicate len 0 := by
    rw [mappedBytes, htype]
  rw [← hcovered] at hlen
  refine ⟨hlen, ?_, ?_⟩
  · intro i _ hin
    omega
  · intro i hi _
    rw [length_mappedBytes, hcovered] at hi
    rw [hcovered, hzeros, List.getElem?_replicate_of_lt hi]

/-- A device position of a block does not overflow. -/
theorem toNat_toUInt64_mul (ptr bs : UInt32) :
    (ptr.toUInt64 * bs.toUInt64).toNat = ptr.toNat * bs.toNat := by
  have hptr := ptr.toNat_lt
  have hbs := bs.toNat_lt
  have hprod : ptr.toNat * bs.toNat < 2 ^ 64 := by
    calc ptr.toNat * bs.toNat ≤ 2 ^ 32 * bs.toNat := Nat.mul_le_mul_right _ hptr.le
      _ < 2 ^ 32 * 2 ^ 32 := Nat.mul_lt_mul_of_pos_left hbs (by omega)
      _ = 2 ^ 64 := by omega
  rw [UInt64.toNat_mul, UInt32.toNat_toUInt64, UInt32.toNat_toUInt64, Nat.mod_eq_of_lt hprod]

theorem block_of_add {bs i : Nat} (h : pos % bs + i < bs) :
    (pos + i) / bs = pos / bs ∧ (pos + i) % bs = pos % bs + i := by
  have hsplit := Nat.div_add_mod' pos bs
  have hsum : pos + i = (pos % bs + i) + pos / bs * bs := by omega
  constructor
  · rw [hsum, Nat.add_mul_div_right _ _ (by omega), Nat.div_eq_of_lt h, Nat.zero_add]
  · rw [hsum, Nat.add_mul_mod_self_right, Nat.mod_eq_of_lt h]

/-- Below the end of the file the mapping covers the block at `pos`. -/
theorem supplies_block (hlen : 0 < len) (hin : pos < inode.size.val) (map : IoMap)
    (htype : map.type = .mapped)
    (hoffset : map.offset = (pos / s.blockSize.toNat : Nat) * s.blockSize.toNat)
    (hlength : map.length = s.blockSize.toUInt64)
    (haddr : map.addr = (s.walkedBlock disk inode.data (pos / s.blockSize.toNat)).toUInt64 *
      s.blockSize.toUInt64) : Supplies s disk inode pos len map := by
  have hpos := s.blockSize_pos
  have hsplit := Nat.div_add_mod' pos s.blockSize.toNat
  have hmod := Nat.mod_lt pos hpos
  have hbytes : map.length.toNat = s.blockSize.toNat := by rw [hlength, UInt32.toNat_toUInt64]
  have hstart : (pos - map.offset).toNat = pos % s.blockSize.toNat := by
    rw [hoffset]
    omega
  have hcovered : covered map pos len ≤ s.blockSize.toNat - pos % s.blockSize.toNat := by
    rw [covered, hoffset, hbytes]
    omega
  have hdisk : map.addr.toNat =
      (s.walkedBlock disk inode.data (pos / s.blockSize.toNat)).toNat * s.blockSize.toNat := by
    rw [haddr, toNat_toUInt64_mul]
  have hwithin : ∀ i < covered map pos len, (pos + i) / s.blockSize.toNat =
      pos / s.blockSize.toNat ∧ (pos + i) % s.blockSize.toNat = pos % s.blockSize.toNat + i := by
    intro i hi
    exact block_of_add (by omega)
  refine ⟨?_, ?_, ?_⟩
  · rw [covered, hoffset, hbytes]
    omega
  · intro i hi _
    rw [length_mappedBytes] at hi
    rw [mappedBytes, htype, List.getElem?_map, List.getElem?_range hi, (hwithin i hi).1,
      (hwithin i hi).2, hdisk, hstart, Option.map_some, Nat.add_assoc]
  · intro i hi hbehind
    rw [length_mappedBytes] at hi
    rw [(hwithin i hi).1] at hbehind
    omega

/-- Every call of `begin` for a range of a file whose blocks the pointers can reach brings the read
on. -/
theorem iomapBegin_supplies (hd : ReadsDisk env disk) (hpage : s.blockSize.toNat ≤ PAGE_SIZE)
    (hblocks : (pos : Int) < inode.size.val →
      pos / s.blockSize.toNat < treeBlocks (s.blockSize.toNat / 4))
    (sb : SuperBlock) (hlen : 0 < len) (hfits : len < 2 ^ 64) :
    ∃ map, Program.Returns env (s.iomapBegin sb inode pos len ⟨.hole, 0, 0, 0, 0, 0⟩) (.done map) ∧
      Supplies s disk inode pos len map := by
  by_cases hin : pos < inode.size.val
  · exact ⟨_, iomapBegin_returns hd hpage inode pos hin (hblocks hin) sb len _,
      supplies_block hlen hin _ rfl rfl rfl rfl⟩
  · have hend : inode.size.val ≤ pos := by omega
    refine ⟨⟨.hole, pos, UInt64.ofInt len, IoMap.MERGED, 0, 0⟩, ?_,
      supplies_hole hlen hfits hend _ rfl rfl rfl⟩
    rw [iomapBegin, if_pos hend]
    exact Program.Returns.done env _

variable (pos) in
theorem readMappings_returns (hd : ReadsDisk env disk) (hpage : s.blockSize.toNat ≤ PAGE_SIZE)
    (hblocks : ∀ p : Nat, (p : Int) < inode.size.val →
      p / s.blockSize.toNat < treeBlocks (s.blockSize.toNat / 4))
    (sb : SuperBlock) {fuel : Nat} (hfuel : len ≤ fuel) (hfits : len < 2 ^ 64) :
    ∃ bytes, Program.Returns env (s.readMappings sb disk inode fuel pos len) (.done bytes) ∧
      bytes.length = len ∧ ReadAs s disk inode pos bytes := by
  induction fuel generalizing pos len with
  | zero =>
    obtain rfl : len = 0 := by omega
    exact ⟨[], Program.Returns.done env _, rfl, readAs_nil pos⟩
  | succ fuel ih =>
    match len, hfuel, hfits with
    | 0, _, _ => exact ⟨[], Program.Returns.done env _, rfl, readAs_nil pos⟩
    | len + 1, hfuel, hfits =>
      obtain ⟨map, hmap, hsupplies⟩ :=
        iomapBegin_supplies hd hpage (hblocks pos) sb (show 0 < len + 1 by omega) hfits
      have hcovers := hsupplies.covers
      have hle : covered map pos (len + 1) ≤ len + 1 := covered_le map
      have hreads := hsupplies.reads
      generalize hn : covered map pos (len + 1) = n at hcovers hle hreads
      obtain ⟨rest, hrest, hlength, hread⟩ :=
        @ih (pos + n) (len + 1 - n) (by omega) (by omega)
      refine ⟨mappedBytes disk map pos n ++ rest, hmap.bind ?_, ?_, hreads.append ?_⟩
      · rw [hn, if_neg (by omega)]
        exact hrest.bind (Program.Returns.done env _)
      · rw [List.length_append, length_mappedBytes, hlength]
        omega
      · rw [length_mappedBytes]
        exact hread

theorem reachable_of_size
    (hblocks : inode.size.val ≤ (treeBlocks (s.blockSize.toNat / 4) * s.blockSize.toNat : Nat))
    (p : Nat) (hp : (p : Int) < inode.size.val) :
    p / s.blockSize.toNat < treeBlocks (s.blockSize.toNat / 4) :=
  (Nat.div_lt_iff_lt_mul s.blockSize_pos).mpr (by omega)

/-- Without holes the walk arrives at the blocks of the file. -/
theorem ReadAs.of_dense {bytes : List UInt8} (h : ReadAs s disk inode pos bytes)
    (hdense : ∀ p : Nat, (p : Int) < inode.size.val →
      s.fileBlock disk inode.data (p / s.blockSize.toNat) ≠ none)
    (i : Nat) (hi : i < bytes.length) (hin : (pos + i : Nat) < inode.size.val) :
    ∃ ptr, s.fileBlock disk inode.data ((pos + i) / s.blockSize.toNat) = some ptr ∧
      bytes[i]? = some (disk (ptr.toNat * s.blockSize.toNat + (pos + i) % s.blockSize.toNat)) := by
  obtain ⟨ptr, hptr⟩ := Option.ne_none_iff_exists'.mp (hdense (pos + i) hin)
  have hbyte := h.inside i hi hin
  rw [(walkedBlock_of_fileBlock hptr).1] at hbyte
  exact ⟨ptr, hptr, hbyte⟩

/-- A read through the mappings of a file without holes gives the bytes of the file: the byte at
`p` is the one at `p % blockSize` of the disk block that the tree of pointers has for it, and from
the first block behind the end on there are zeros. -/
theorem readMappings_exact (hd : ReadsDisk env disk) (hpage : s.blockSize.toNat ≤ PAGE_SIZE)
    (hblocks : inode.size.val ≤ (treeBlocks (s.blockSize.toNat / 4) * s.blockSize.toNat : Nat))
    (hdense : ∀ p : Nat, (p : Int) < inode.size.val →
      s.fileBlock disk inode.data (p / s.blockSize.toNat) ≠ none)
    (sb : SuperBlock) (pos len : Nat) (hfits : len < 2 ^ 64) :
    ∃ bytes, Program.Returns env (s.readMappings sb disk inode len pos len) (.done bytes) ∧
      bytes.length = len ∧
      (∀ i < len, (pos + i : Nat) < inode.size.val → ∃ ptr,
        s.fileBlock disk inode.data ((pos + i) / s.blockSize.toNat) = some ptr ∧
        bytes[i]? = some (disk (ptr.toNat * s.blockSize.toNat + (pos + i) % s.blockSize.toNat))) ∧
      ∀ i < len, inode.size.val ≤ ((pos + i) / s.blockSize.toNat * s.blockSize.toNat : Nat) →
        bytes[i]? = some 0 := by
  obtain ⟨bytes, hreturns, hlength, hread⟩ :=
    readMappings_returns pos hd hpage (reachable_of_size hblocks) sb (Nat.le_refl len) hfits
  refine ⟨bytes, hreturns, hlength, ?_, ?_⟩
  · intro i hi hin
    exact hread.of_dense hdense i (by omega) hin
  · intro i hi hbehind
    exact hread.behind i (by omega) hbehind

theorem readMappings_exact_small :
    ∃ bytes, Program.Returns (diskKernel (smallDisk fun _ => 0) fun _ => .null)
        (smallExt2.readMappings ⟨0, 0, true⟩ (smallDisk fun _ => 0)
          (plainFile (Vector.replicate _ 20)) 3000 1500 3000) (.done bytes) ∧
      bytes.length = 3000 := by
  have hdense : ∀ p : Nat, (p : Int) < (plainFile (Vector.replicate _ 20)).size.val →
      smallExt2.fileBlock (smallDisk fun _ => 0) ⟨Vector.replicate _ 20⟩
        (p / smallExt2.blockSize.toNat) ≠ none := by
    intro p hp
    have hsize : p < 4096 := Int.ofNat_lt.mp hp
    have hblock : p / 1024 < 4 := by omega
    show smallExt2.fileBlock (smallDisk fun _ => 0) ⟨Vector.replicate _ 20⟩ (p / 1024) ≠ none
    interval_cases p / 1024 <;> decide
  obtain ⟨bytes, hreturns, hlength, -⟩ :=
    readMappings_exact (diskKernel_reads _ _) (by decide) (by decide) hdense ⟨0, 0, true⟩ 1500 3000
      (by decide)
  exact ⟨bytes, hreturns, hlength⟩

end

end Rko.Ext2Fs
