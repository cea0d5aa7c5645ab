import Rko.Ext2Listing
import Rko.Gaps

namespace Rko

open CallProgram Gaps PagedListing

namespace Ext2Fs

@[simp] theorem liveOf_nil : liveOf [] = [] := rfl

theorem liveOf_cons_live {r : Ext2DirEntry × List UInt8} (h : Live r)
    (rs : List (Ext2DirEntry × List UInt8)) : liveOf (r :: rs) = emitted r :: liveOf rs := by
  simp [liveOf, h]

theorem liveOf_cons_deleted {r : Ext2DirEntry × List UInt8} (h : ¬ Live r)
    (rs : List (Ext2DirEntry × List UInt8)) : liveOf (r :: rs) = liveOf rs := by
  simp [liveOf, h]

@[simp] theorem liveOf_append (rs rs' : List (Ext2DirEntry × List UInt8)) :
    liveOf (rs ++ rs') = liveOf rs ++ liveOf rs' := by
  simp [liveOf]

section Block

variable {d : Slice}

theorem liveRecords_end (d : Slice) (scan : Nat) : liveRecords d scan d.len = ([], none) := by
  cases scan with
  | zero => rfl
  | succ scan => rw [liveRecords, if_neg (by omega)]

/-- One round of the loop, on a record that lies in the page. -/
theorem liveRecords_step {off scan : Nat} {rs : List (Ext2DirEntry × List UInt8)}
    (halign : (d.base + off) % 4 = 0) (hin : off < d.len - Ext2DirEntry.size)
    (hname : Ext2DirEntry.size + (entryAt d off).nameLen.toNat ≤ (entryAt d off).recLen.toNat)
    (hle : off + (entryAt d off).recLen.toNat ≤ d.len)
    (hrest : liveRecords d scan (off + (entryAt d off).recLen.toNat) = (liveOf rs, none)) :
    liveRecords d (scan + 1) off =
      (liveOf ((entryAt d off, entryName d off (entryAt d off)) :: rs), none) := by
  have hentry : Ext2DirEntry.fromBytes d off = some (entryAt d off) :=
    Ext2DirEntry.fromBytes_eq_some (by omega) halign
  rw [liveRecords, if_pos hin, hentry]
  simp only
  rw [if_neg (by rw [not_or]; exact ⟨recLen_ne_zero hname, by omega⟩), hrest]
  by_cases hlive : Live (entryAt d off, entryName d off (entryAt d off))
  · rw [if_neg (by rw [not_or]; exact ⟨hlive, by omega⟩), liveOf_cons_live hlive]
    rfl
  · rw [if_pos (Or.inl (not_not.mp hlive)), liveOf_cons_deleted hlive]

/-- The loop does not look at a record of eight bytes at the end of a block, so it must not be live. -/
def LastSeen (rs : List (Ext2DirEntry × List UInt8)) : Prop :=
  ∀ r, rs.getLast? = some r → Live r → r.1.recLen.toNat ≠ Ext2DirEntry.size

theorem LastSeen.of_suffix {rs rs' : List (Ext2DirEntry × List UInt8)} (h : LastSeen rs)
    (hsuffix : rs' <:+ rs) : LastSeen rs' := by
  obtain ⟨before, rfl⟩ := hsuffix
  intro r hr
  apply h r
  rw [List.getLast?_append, hr, Option.some_or]

/-- In a tiled block the loop emits the live records. -/
theorem liveRecords_tiled {fuel off scan : Nat} (hbase : d.base % 4 = 0) (hoff : off % 4 = 0)
    (htiled : tiledFrom d d.len fuel off = true) (hseen : LastSeen (recordsFrom d d.len fuel off))
    (hscan : d.len ≤ scan + off) :
    liveRecords d scan off = (liveOf (recordsFrom d d.len fuel off), none) := by
  have hsize : Ext2DirEntry.size = 8 := rfl
  induction fuel generalizing off scan with
  | zero =>
    have heq : off = d.len := by simpa [tiledFrom] using htiled
    rw [heq, liveRecords_end]
    rfl
  | succ fuel ih =>
    by_cases heq : off = d.len
    · rw [recordsFrom, if_pos heq, heq, liveRecords_end]
      rfl
    · obtain ⟨hmod, hlen, hle, hrest⟩ := tiledFrom_succ htiled heq
      rw [recordsFrom, if_neg heq] at hseen ⊢
      have hnext : ∀ scan, d.len ≤ scan + (off + (entryAt d off).recLen.toNat) →
          liveRecords d scan (off + (entryAt d off).recLen.toNat) =
            (liveOf (recordsFrom d d.len fuel (off + (entryAt d off).recLen.toNat)), none) :=
        fun scan hscan => ih (by omega) hrest (hseen.of_suffix (List.suffix_cons _ _)) hscan
      by_cases hin : off < d.len - Ext2DirEntry.size
      · obtain ⟨scan, rfl⟩ : ∃ n, scan = n + 1 := ⟨scan - 1, by omega⟩
        exact liveRecords_step (by omega) hin hlen (by omega) (hnext scan (by omega))
      · have hlast : off + (entryAt d off).recLen.toNat = d.len := by omega
        have hend : recordsFrom d d.len fuel (off + (entryAt d off).recLen.toNat) = [] := by
          rw [hlast]
          cases fuel with
          | zero => rfl
          | succ fuel => rw [recordsFrom, if_pos rfl]
        rw [hend] at hseen ⊢
        have hdeleted : ¬ Live (entryAt d off, entryName d off (entryAt d off)) := by
          intro hlive
          have hlong : (entryAt d off).recLen.toNat ≠ Ext2DirEntry.size := hseen _ rfl hlive
          omega
        rw [liveOf_cons_deleted hdeleted, liveOf_nil]
        cases scan with
        | zero => rfl
        | succ scan => rw [liveRecords, if_neg hin]

theorem le_recLen_of_tiled {limit fuel off : Nat} (htiled : tiledFrom d limit fuel off = true) :
    ∀ r ∈ recordsFrom d limit fuel off, Ext2DirEntry.size ≤ r.1.recLen.toNat := by
  induction fuel generalizing off with
  | zero =>
    intro r hr
    cases hr
  | succ fuel ih =>
    intro r hr
    by_cases heq : off = limit
    · rw [recordsFrom, if_pos heq] at hr
      cases hr
    · obtain ⟨-, hname, -, hrest⟩ := tiledFrom_succ htiled heq
      rw [recordsFrom, if_neg heq] at hr
      rcases List.mem_cons.mp hr with rfl | hr
      · exact Nat.le_trans (Nat.le_add_right _ _) hname
      · exact ih hrest r hr

end Block

section Pieces

/-- A record takes up its length, and is listed when it is live. -/
def piece (r : Ext2DirEntry × List UInt8) : Piece DirRecord :=
  ⟨r.1.recLen.toNat, if Live r then some (emitted r) else none⟩

theorem entries_map_piece (rs : List (Ext2DirEntry × List UInt8)) :
    entries (rs.map piece) = liveOf rs := by
  induction rs with
  | nil => rfl
  | cons r rs ih =>
    by_cases hlive : Live r
    · have hentry : (piece r).entry = some (emitted r) := if_pos hlive
      rw [liveOf_cons_live hlive, ← ih, List.map_cons, entries, List.filterMap_cons_some hentry]
      rfl
    · have hentry : (piece r).entry = none := if_neg hlive
      rw [liveOf_cons_deleted hlive, ← ih, List.map_cons, entries, List.filterMap_cons_none hentry]
      rfl

variable {d : Slice}

theorem extent_of_tiled {limit fuel off : Nat} (htiled : tiledFrom d limit fuel off = true) :
    off + extent ((recordsFrom d limit fuel off).map piece) = limit := by
  induction fuel generalizing off with
  | zero =>
    have heq : off = limit := by simpa [tiledFrom] using htiled
    simpa [recordsFrom] using heq
  | succ fuel ih =>
    by_cases heq : off = limit
    · simp [recordsFrom, heq]
    · obtain ⟨-, -, -, hrest⟩ := tiledFrom_succ htiled heq
      have hnext := ih hrest
      rw [recordsFrom, if_neg heq, List.map_cons, extent_cons, piece]
      simp only
      omega

/-- Where a record begins, the rest of a tiled block is tiled by the rest of the records. -/
theorem tiledFrom_split {limit fuel off : Nat} {rs rs' : List (Ext2DirEntry × List UInt8)}
    (hoff : off % 4 = 0) (htiled : tiledFrom d limit fuel off = true)
    (hsplit : recordsFrom d limit fuel off = rs ++ rs') :
    ∃ fuel' off', off' = off + extent (rs.map piece) ∧ off' % 4 = 0 ∧
      tiledFrom d limit fuel' off' = true ∧ recordsFrom d limit fuel' off' = rs' := by
  induction rs generalizing fuel off with
  | nil => exact ⟨fuel, off, rfl, hoff, htiled, hsplit⟩
  | cons r rs ih =>
    cases fuel with
    | zero => cases hsplit
    | succ fuel =>
      by_cases heq : off = limit
      · rw [recordsFrom, if_pos heq] at hsplit
        cases hsplit
      · obtain ⟨hmod, -, -, hrest⟩ := tiledFrom_succ htiled heq
        rw [recordsFrom, if_neg heq, List.cons_append] at hsplit
        obtain ⟨rfl, hrecords⟩ := List.cons.inj hsplit
        obtain ⟨fuel', off', hoff', hmod', htiled', hrecords⟩ := ih (by omega) hrest hrecords
        refine ⟨fuel', off', ?_, hmod', htiled', hrecords⟩
        rw [List.map_cons, extent_cons, piece, hoff']
        simp only
        omega

end Pieces

section Directory

variable {s : Ext2Fs} {disk : Disk}

/-- The pieces of block `j`: its records, or a hole as one piece without an entry. -/
def blockPieces (s : Ext2Fs) (disk : Disk) (data : INodeData) (j : Nat) : List (Piece DirRecord) :=
  match s.fileBlock disk data j with
  | some _ => (s.blockRecords disk data j).map piece
  | none => [⟨s.blockSize.toNat, none⟩]

theorem entries_blockPieces (s : Ext2Fs) (disk : Disk) (data : INodeData) (j : Nat) :
    entries (s.blockPieces disk data j) = liveOf (s.blockRecords disk data j) := by
  cases hptr : s.fileBlock disk data j with
  | none =>
    simp only [blockPieces, blockRecords, hptr]
    rfl
  | some ptr =>
    simp only [blockPieces, hptr]
    exact entries_map_piece _

/-- The code sees the directory as it is: the tables that lead to a hole are zero as far as it follows
them, and no live record takes just the last eight bytes of a block. -/
structure Directory.Readable (dir : Directory s disk) : Prop where
  holes : ∀ j < dir.blocks, s.fileBlock disk dir.inode.data j = none →
    s.walkedBlock disk dir.inode.data j = 0
  lastSeen : ∀ j < dir.blocks, LastSeen (s.blockRecords disk dir.inode.data j)

variable (dir : Directory s disk)

/-- The pieces of `n` blocks from block `j` on. -/
def Directory.piecesFrom (j n : Nat) : List (Piece DirRecord) :=
  (List.range' j n).flatMap (s.blockPieces disk dir.inode.data)

def Directory.pieces : List (Piece DirRecord) := dir.piecesFrom 0 dir.blocks

/-- No deleted record and no hole comes before a live record. -/
structure Directory.Packed (dir : Directory s disk) : Prop extends dir.Readable where
  gapless : Gapless dir.pieces

/-- Wherever a call may stop, its position is where a record or a hole begins. -/
def Directory.Aligned : Prop :=
  ∀ k ≤ (liveOf dir.records).length, ∃ before after, dir.pieces = before ++ after ∧
    extent before = advance ((liveOf dir.records).take k)

theorem Directory.piecesFrom_succ (j n : Nat) :
    dir.piecesFrom j (n + 1) =
      s.blockPieces disk dir.inode.data j ++ dir.piecesFrom (j + 1) n := by
  simp [piecesFrom, List.range'_succ]

theorem Directory.entries_pieces : entries dir.pieces = liveOf dir.records := by
  have hblocks : ∀ js : List Nat, entries (js.flatMap (s.blockPieces disk dir.inode.data)) =
      liveOf (js.flatMap (s.blockRecords disk dir.inode.data)) := by
    intro js
    induction js with
    | nil => rfl
    | cons j js ih =>
      rw [List.flatMap_cons, List.flatMap_cons, entries_append, liveOf_append, ih,
        entries_blockPieces]
  rw [pieces, piecesFrom, ← List.range_eq_range']
  exact hblocks _

variable {dir}

theorem Directory.extent_blockPieces {j : Nat} (hj : j < dir.blocks) :
    extent (s.blockPieces disk dir.inode.data j) = s.blockSize.toNat := by
  cases hptr : s.fileBlock disk dir.inode.data j with
  | none =>
    simp only [blockPieces, hptr]
    rfl
  | some ptr =>
    have hextent := extent_of_tiled (dir.tiled j hj ptr hptr)
    simp only [blockPieces, blockRecords, hptr]
    omega

theorem Directory.mem_blockPieces {j : Nat} (hj : j < dir.blocks) {p : Piece DirRecord}
    (hp : p ∈ s.blockPieces disk dir.inode.data j) :
    0 < p.size ∧ ∀ r, p.entry = some r → r.posInc = p.size := by
  cases hptr : s.fileBlock disk dir.inode.data j with
  | none =>
    simp only [blockPieces, hptr, List.mem_singleton] at hp
    subst hp
    exact ⟨s.blockSize_pos, fun r hr => by cases hr⟩
  | some ptr =>
    simp only [blockPieces, blockRecords, hptr] at hp
    obtain ⟨r, hr, rfl⟩ := List.mem_map.mp hp
    have hsize : Ext2DirEntry.size = 8 := rfl
    have hlen := le_recLen_of_tiled (dir.tiled j hj ptr hptr) r hr
    refine ⟨by rw [piece]; simp only; omega, fun r' hr' => ?_⟩
    obtain ⟨-, hsame⟩ := Option.ite_none_right_eq_some.mp hr'
    cases hsame
    rfl

theorem Directory.mem_pieces {p : Piece DirRecord} (hp : p ∈ dir.pieces) :
    0 < p.size ∧ ∀ r, p.entry = some r → r.posInc = p.size := by
  obtain ⟨j, hj, hp⟩ := List.mem_flatMap.mp hp
  rw [List.mem_range'_1] at hj
  exact dir.mem_blockPieces (by omega) hp

/-- The position of a reader that has counted `k` live records. -/
theorem Directory.extent_listed (k : Nat) :
    extent ((listed dir.pieces).take k) = advance ((liveOf dir.records).take k) := by
  have hsizes : ∀ {ps : List (Piece DirRecord)} (_ : ∀ p ∈ ps, ∀ r, p.entry = some r →
      r.posInc = p.size) (k : Nat), extent ((listed ps).take k) = advance ((entries ps).take k) := by
    intro ps hps
    induction ps with
    | nil => simp [listed]
    | cons p ps ih =>
      intro k
      have hrest := ih fun q hq => hps q (List.mem_cons_of_mem p hq)
      rw [listed, entries] at hrest ⊢
      cases hp : p.entry with
      | none =>
        rw [List.filter_cons_of_neg (by simp [hp]), List.filterMap_cons_none hp]
        exact hrest k
      | some r =>
        rw [List.filter_cons_of_pos (by simp [hp]), List.filterMap_cons_some hp]
        cases k with
        | zero => rfl
        | succ k =>
          rw [List.take_succ_cons, List.take_succ_cons, extent_cons, advance_cons, hrest k,
            hps p List.mem_cons_self r hp]
  rw [← dir.entries_pieces]
  exact hsizes (fun p hp => (dir.mem_pieces hp).2) k

theorem Directory.position_in_block {j off : Nat} (hj : j < dir.blocks)
    (hoff : off < s.blockSize.toNat) :
    ((j * s.blockSize.toNat + off : Nat) : Int) < dir.inode.size.val ∧
      (j * s.blockSize.toNat + off) / s.blockSize.toNat = j ∧
      (j * s.blockSize.toNat + off) % s.blockSize.toNat = off := by
  have hnext := Nat.mul_le_mul_right s.blockSize.toNat hj
  rw [Nat.add_one_mul] at hnext
  refine ⟨?_, ?_, ?_⟩
  · rw [dir.size_eq]
    omega
  · rw [Nat.add_comm, Nat.add_mul_div_right _ _ s.blockSize_pos, Nat.div_eq_of_lt hoff,
      Nat.zero_add]
  · rw [Nat.add_comm, Nat.add_mul_mod_self_right, Nat.mod_eq_of_lt hoff]

/-- From where a record of a block begins, the loop over the block emits the live ones of the rest. -/
theorem Directory.Readable.liveRecords_block (hr : dir.Readable)
    (hbs : s.blockSize.toNat = PAGE_SIZE) {j : Nat} {ptr : UInt32} (hj : j < dir.blocks)
    (hptr : s.fileBlock disk dir.inode.data j = some ptr)
    {rs rs' : List (Ext2DirEntry × List UInt8)}
    (hsplit : s.blockRecords disk dir.inode.data j = rs ++ rs') :
    liveRecords (disk.tail (ptr.toNat * s.blockSize.toNat))
      (disk.tail (ptr.toNat * s.blockSize.toNat)).len (extent (rs.map piece)) =
        (liveOf rs', none) := by
  have hlen := blockPage_len disk hbs ptr
  have hbase : (disk.tail (ptr.toNat * s.blockSize.toNat)).base % 4 = 0 := by
    rw [Disk.tail_base, hbs, Nat.mul_mod_left]
  have hseen := (hr.lastSeen j hj).of_suffix ⟨rs, hsplit.symm⟩
  have htiled := dir.tiled j hj ptr hptr
  simp only [blockRecords, hptr] at hsplit
  generalize disk.tail (ptr.toNat * s.blockSize.toNat) = d at *
  rw [← hlen] at htiled hsplit
  obtain ⟨fuel, off, hoff, hmod, htiled', rfl⟩ := tiledFrom_split (Nat.zero_mod 4) htiled hsplit
  rw [Nat.zero_add] at hoff
  rw [← hoff]
  exact liveRecords_tiled hbase hmod htiled' hseen (Nat.le_add_right _ _)

theorem Directory.extent_lt_block {j : Nat} {before after : List (Piece DirRecord)}
    (hj : j < dir.blocks) (hsplit : s.blockPieces disk dir.inode.data j = before ++ after)
    (hne : after ≠ []) : extent before < s.blockSize.toNat := by
  have hblock := dir.extent_blockPieces hj
  have hpos : extent after ≠ 0 := by
    intro hzero
    refine hne (eq_nil_of_extent (fun p hp => (dir.mem_blockPieces hj ?_).1) hzero)
    rw [hsplit]
    exact List.mem_append_right _ hp
  rw [hsplit, extent_append] at hblock
  omega

theorem Directory.Readable.liveFrom_block (hr : dir.Readable) (hbs : s.blockSize.toNat = PAGE_SIZE)
    {j fuel : Nat} {before after : List (Piece DirRecord)} {rest : List DirRecord}
    (hj : j < dir.blocks) (hsplit : s.blockPieces disk dir.inode.data j = before ++ after)
    (hne : after ≠ [])
    (hrest : s.liveFrom disk dir.inode fuel ((j + 1) * s.blockSize.toNat) = (rest, none)) :
    s.liveFrom disk dir.inode (fuel + 1) (j * s.blockSize.toNat + extent before) =
      (entries after ++ rest, none) := by
  obtain ⟨hpos, hdiv, hmod⟩ := dir.position_in_block hj (dir.extent_lt_block hj hsplit hne)
  rw [liveFrom, if_pos hpos, hdiv, hmod]
  cases hptr : s.fileBlock disk dir.inode.data j with
  | none =>
    simp only [blockPieces, hptr] at hsplit
    rcases List.append_eq_singleton_iff.mp hsplit.symm with ⟨rfl, rfl⟩ | ⟨-, hnil⟩
    · rw [if_pos (hr.holes j hj hptr), extent_nil, Nat.add_zero, ← Nat.add_one_mul, hrest]
      rfl
    · exact absurd hnil hne
  | some ptr =>
    simp only [blockPieces, hptr] at hsplit
    obtain ⟨rs, rs', hrecords, rfl, rfl⟩ := List.map_eq_append_iff.mp hsplit
    obtain ⟨hwalk, hzero⟩ := walkedBlock_of_fileBlock hptr
    rw [hwalk, if_neg hzero, ← Nat.add_one_mul, hrest, entries_map_piece]
    simp only [hr.liveRecords_block hbs hj hptr hrecords]
    rfl

/-- From where a record or a hole begins, a call reads the live records from there on. -/
theorem Directory.Readable.liveFrom_blocks (hr : dir.Readable) (hbs : s.blockSize.toNat = PAGE_SIZE)
    {j n fuel : Nat} {before after : List (Piece DirRecord)} (hn : j + n = dir.blocks)
    (hsplit : dir.piecesFrom j n = before ++ after)
    (hfuel : dir.inode.size.val.toNat - (j * s.blockSize.toNat + extent before) < fuel) :
    s.liveFrom disk dir.inode fuel (j * s.blockSize.toNat + extent before) =
      (entries after, none) := by
  have hsize : dir.inode.size.val.toNat = j * s.blockSize.toNat + n * s.blockSize.toNat := by
    rw [dir.size_eq, ← hn, ← Nat.cast_mul, Int.toNat_natCast]
    ring
  induction n generalizing j fuel before after with
  | zero =>
    obtain ⟨rfl, rfl⟩ := List.append_eq_nil_iff.mp hsplit.symm
    obtain ⟨fuel, rfl⟩ : ∃ m, fuel = m + 1 := ⟨fuel - 1, by omega⟩
    rw [liveFrom, extent_nil, if_neg (by omega)]
    rfl
  | succ n ih =>
    have hj : j < dir.blocks := by omega
    have hnext : (j + 1) * s.blockSize.toNat = j * s.blockSize.toNat + s.blockSize.toNat :=
      Nat.add_one_mul ..
    rw [Nat.add_one_mul] at hsize
    -- where the block is used up, what follows is at the blocks after it
    have hbehind : ∀ {before' fuel}, dir.piecesFrom (j + 1) n = before' ++ after →
        dir.inode.size.val.toNat - ((j + 1) * s.blockSize.toNat + extent before') < fuel →
        s.liveFrom disk dir.inode fuel ((j + 1) * s.blockSize.toNat + extent before') =
          (entries after, none) :=
      fun hsplit' hfuel' => ih (by omega) hsplit' hfuel' (by omega)
    rw [dir.piecesFrom_succ] at hsplit
    rcases List.append_eq_append_iff.mp hsplit with ⟨before', rfl, hrest⟩ | ⟨own, hown, rfl⟩
    · rw [extent_append, dir.extent_blockPieces hj, ← Nat.add_assoc, ← hnext] at hfuel ⊢
      exact hbehind hrest hfuel
    · have hrest : ∀ {fuel}, dir.inode.size.val.toNat - (j + 1) * s.blockSize.toNat < fuel →
          s.liveFrom disk dir.inode fuel ((j + 1) * s.blockSize.toNat) =
            (entries (dir.piecesFrom (j + 1) n), none) :=
        fun hfuel' => ih (by omega) (List.nil_append _).symm hfuel' (by omega)
      rcases eq_or_ne own [] with rfl | hne
      · rw [List.append_nil] at hown
        rw [← hown, dir.extent_blockPieces hj, ← hnext] at hfuel ⊢
        exact hrest hfuel
      · obtain ⟨fuel, rfl⟩ : ∃ m, fuel = m + 1 := ⟨fuel - 1, by omega⟩
        have hin := dir.extent_lt_block hj hown hne
        rw [entries_append]
        exact hr.liveFrom_block hbs hj hown hne (hrest (by omega))

theorem Directory.Readable.scanFrom_split (hr : dir.Readable) (hbs : s.blockSize.toNat = PAGE_SIZE)
    {before after : List (Piece DirRecord)} (hsplit : dir.pieces = before ++ after) :
    s.scanFrom disk dir.inode (extent before) = scanOf (entries after) none (extent before) := by
  have hfrom := hr.liveFrom_blocks hbs (Nat.zero_add _) hsplit
    (Nat.lt_succ_self (dir.inode.size.val.toNat - (0 * s.blockSize.toNat + extent before)))
  have hfuel : (dir.inode.size.val - (extent before : Nat)).toNat =
      dir.inode.size.val.toNat - extent before := by omega
  rw [Nat.zero_mul, Nat.zero_add] at hfrom
  rw [scanFrom, Int.toNat_natCast, hfuel, hfrom]

theorem Directory.Readable.advance_records (hr : dir.Readable)
    (hbs : s.blockSize.toNat = PAGE_SIZE) : advance (liveOf dir.records) < 2 ^ 32 := by
  have hfrom := hr.liveFrom_blocks hbs (Nat.zero_add _) (List.nil_append dir.pieces).symm
    (Nat.lt_succ_self _)
  have hadvance := dir.advance_liveFrom hbs (dir.inode.size.val.toNat -
    (0 * s.blockSize.toNat + extent ([] : List (Piece DirRecord))) + 1)
    (0 * s.blockSize.toNat + extent ([] : List (Piece DirRecord)))
  rw [hfrom, dir.entries_pieces] at hadvance
  have hlt := dir.size_lt
  simp only at hadvance
  omega

/-- The first call may stop behind any number of live records. -/
theorem Directory.Readable.resumePoint (hr : dir.Readable) (hbs : s.blockSize.toNat = PAGE_SIZE)
    {k : Nat} (hk : k ≤ (liveOf dir.records).length) :
    ResumePoint (s.scanFrom disk dir.inode) 0 k (advance ((liveOf dir.records).take k) : Nat) := by
  cases k with
  | zero => exact .start
  | succ k =>
    have hscan : s.scanFrom disk dir.inode 0 = scanOf (liveOf dir.records) none 0 := by
      rw [← dir.entries_pieces]
      exact hr.scanFrom_split hbs (List.nil_append dir.pieces).symm
    have hlength : k < (positioned (liveOf dir.records) 0).length := by
      rw [positioned_length]
      omega
    obtain ⟨⟨entry, pos⟩, he⟩ : ∃ e, (positioned (liveOf dir.records) 0)[k]? = some e :=
      ⟨_, List.getElem?_eq_getElem hlength⟩
    have htotal := hr.advance_records hbs
    obtain ⟨-, rfl⟩ := positioned_getElem? (Int.le_refl 0) (by omega) he
    have hstart : ResumePoint (s.scanFrom disk dir.inode) 0 0 0 := .start
    have hnext := hstart.next (m := k) (by rw [hscan]; exact he)
    rw [Nat.zero_add, Int.zero_add] at hnext
    exact hnext

/-- In a packed directory a call that stops behind the first `k` live records is where the next one
begins. -/
theorem Directory.Packed.split (hp : dir.Packed) {k : Nat} (hk : k ≤ (liveOf dir.records).length) :
    ∃ before after, dir.pieces = before ++ after ∧
      extent before = advance ((liveOf dir.records).take k) ∧
      entries after = (liveOf dir.records).drop k := by
  rw [← dir.entries_pieces] at hk
  have hresumes := hp.gapless.resumes hk
  refine ⟨_, _, hresumes.split, hresumes.extent_eq.trans (dir.extent_listed k), ?_⟩
  rw [hresumes.entries_after (hp.gapless.length_entries hk), dir.entries_pieces]

theorem Directory.Packed.aligned (hp : dir.Packed) : dir.Aligned := by
  intro k hk
  obtain ⟨before, after, hsplit, hextent, -⟩ := hp.split hk
  exact ⟨before, after, hsplit, hextent⟩

theorem Directory.Packed.liveFrom_records (hp : dir.Packed) (hbs : s.blockSize.toNat = PAGE_SIZE)
    {k : Nat} (hk : k ≤ (liveOf dir.records).length) :
    s.liveFrom disk dir.inode
      (dir.inode.size.val.toNat - advance ((liveOf dir.records).take k) + 1)
      (advance ((liveOf dir.records).take k)) = ((liveOf dir.records).drop k, none) := by
  obtain ⟨before, after, hsplit, hextent, hentries⟩ := hp.split hk
  have hfrom := hp.liveFrom_blocks hbs (Nat.zero_add _) hsplit (Nat.lt_succ_self _)
  rw [Nat.zero_mul, Nat.zero_add, hextent, hentries] at hfrom
  exact hfrom

theorem Directory.Packed.scanFrom_after (hp : dir.Packed) (hbs : s.blockSize.toNat = PAGE_SIZE)
    {k : Nat} (hk : k ≤ (liveOf dir.records).length) :
    s.scanFrom disk dir.inode (advance ((liveOf dir.records).take k) : Nat) =
      scanOf ((liveOf dir.records).drop k) none (advance ((liveOf dir.records).take k) : Nat) := by
  obtain ⟨before, after, hsplit, hextent, hentries⟩ := hp.split hk
  rw [← hextent, ← hentries]
  exact hp.scanFrom_split hbs hsplit

theorem Directory.Packed.resume_position (hp : dir.Packed) (hbs : s.blockSize.toNat = PAGE_SIZE)
    {k : Nat} {pos : Int} (h : ResumePoint (s.scanFrom disk dir.inode) 0 k pos) :
    k ≤ (liveOf dir.records).length ∧ pos = advance ((liveOf dir.records).take k) := by
  have htotal := hp.advance_records hbs
  induction h with
  | start => exact ⟨Nat.zero_le _, rfl⟩
  | @next k m p p' e _ he ih =>
    obtain ⟨hk, rfl⟩ := ih
    rw [hp.scanFrom_after hbs hk] at he
    have hsum := advance_append ((liveOf dir.records).take k) ((liveOf dir.records).drop k)
    rw [List.take_append_drop] at hsum
    obtain ⟨hm, rfl⟩ := positioned_getElem? (by omega) (by omega) he
    rw [List.length_drop] at hm
    have htake : (liveOf dir.records).take (k + m + 1) =
        (liveOf dir.records).take k ++ ((liveOf dir.records).drop k).take (m + 1) := by
      rw [Nat.add_assoc, List.take_add]
    refine ⟨by omega, ?_⟩
    rw [htake, advance_append]
    push_cast
    rfl

theorem scanOf_listed (rs : List DirRecord) (failure : Option Error) (pos : Int) :
    (scanOf rs failure pos).listed = rs.map DirRecord.entry := by
  rw [Scan.listed, scanOf, positioned_entries]

theorem Directory.Packed.continues (hp : dir.Packed) (hbs : s.blockSize.toNat = PAGE_SIZE)
    {k : Nat} {pos : Int} (h : ResumePoint (s.scanFrom disk dir.inode) 0 k pos) :
    Continues (s.scanFrom disk dir.inode pos) (dir.live.drop k) := by
  obtain ⟨hk, rfl⟩ := hp.resume_position hbs h
  rw [hp.scanFrom_after hbs hk]
  have hlisted : (scanOf ((liveOf dir.records).drop k) none
      (advance ((liveOf dir.records).take k))).listed = dir.live.drop k := by
    rw [scanOf_listed, Directory.live, List.map_drop]
  refine ⟨rfl, hlisted ▸ List.prefix_rfl, fun hne hnil => hne ?_⟩
  rw [← hlisted, Scan.listed, hnil, List.map_nil]

/-- At the beginning of a record a call reads on from there, so that it must not have been listed. -/
theorem Directory.Readable.packed_of_continues (hr : dir.Readable)
    (hbs : s.blockSize.toNat = PAGE_SIZE) (haligned : dir.Aligned)
    (hcontinues : ∀ k pos, ResumePoint (s.scanFrom disk dir.inode) 0 k pos →
      Continues (s.scanFrom disk dir.inode pos) (dir.live.drop k)) : dir.Packed := by
  have hresumes : ∀ k ≤ (entries dir.pieces).length, ∃ before after,
      Resumes dir.pieces k before after := by
    intro k hk
    rw [dir.entries_pieces] at hk
    obtain ⟨before, after, hsplit, hextent⟩ := haligned k hk
    exact ⟨before, after, hsplit, hextent.trans (dir.extent_listed k).symm⟩
  refine ⟨hr, (gapless_iff (fun p hp => (dir.mem_pieces hp).1) hresumes).mpr ?_⟩
  intro k hk before after h
  have hlength := h.length_add
  rw [dir.entries_pieces] at hk hlength
  have hposition := h.extent_eq.trans (dir.extent_listed k)
  have hbegin := (hcontinues k _ (hr.resumePoint hbs hk)).listed.length_le
  rw [← hposition, hr.scanFrom_split hbs h.split, scanOf_listed, List.length_map, List.length_drop,
    Directory.live, List.length_map] at hbegin
  omega

end Directory

/-- However the calls are cut, they list the live records of the directory, each once and in order,
exactly when the bytes at every position where a call can resume are taken for a first part of the
records not yet listed. They are in a directory without anything to skip before a live record; and
where the calls can stop at the beginning of records only, in no other. -/
theorem readDir_lists_live_iff {s : Ext2Fs} {disk : Disk} (hbs : s.blockSize.toNat = PAGE_SIZE)
    (dir : Directory s disk) :
    (Exact (readDirCall (s.readDir dir.inode) disk) 0 dir.live ↔
      ∀ k pos, ResumePoint (s.scanFrom disk dir.inode) 0 k pos →
        Continues (s.scanFrom disk dir.inode pos) (dir.live.drop k)) ∧
      (dir.Packed → Exact (readDirCall (s.readDir dir.inode) disk) 0 dir.live) ∧
      (dir.Readable → dir.Aligned →
        (Exact (readDirCall (s.readDir dir.inode) disk) 0 dir.live ↔ dir.Packed)) := by
  have hiff := exact_readDir_iff hbs dir
  have hpacked : dir.Packed → Exact (readDirCall (s.readDir dir.inode) disk) 0 dir.live :=
    fun hp => hiff.mpr fun _ _ h => hp.continues hbs h
  refine ⟨hiff, hpacked, fun hr haligned => ⟨fun hexact => ?_, hpacked⟩⟩
  exact hr.packed_of_continues hbs haligned (hiff.mp hexact)

/-- A device with blocks of 4096 bytes; `rest` is everything from the third block on. -/
def pageDisk (rest : Disk) : Disk
  | 1024 => 128
  | 1028 => 128
  | 1048 => 2
  | 1057 => 32
  | 1064 => 128
  | 1080 => 0x53
  | 1081 => 0xEF
  | 4096 => 3
  | 4100 => 4
  | 4104 => 5
  | offset => if offset < 2 * PAGE_SIZE then 0 else rest offset

def pageExt2 : Ext2Fs where
  blockSize := 4096
  hasFileType := false
  inodesPerBlock := 32
  inodesPerGroup := 128
  inodeCount := 128
  geometry := ⟨128, 11, smallExt2.geometry.inodeSize_pow, by decide⟩
  groups := [⟨3, 4, 5⟩]
  blockSize_pow := ⟨2, by decide, by decide⟩
  inodesPerBlock_eq := by decide
  inodesPerBlock_ne := by decide
  inodesPerGroup_ne := smallExt2.inodesPerGroup_ne

/-- Block 20 holds the records `a`, a deleted one, `b` and `c`. -/
def gappedBlock : Disk
  | 81920 => 11
  | 81924 => 12
  | 81926 => 1
  | 81928 => 97
  | 81936 => 12
  | 81944 => 12
  | 81948 => 12
  | 81950 => 1
  | 81952 => 98
  | 81956 => 13
  | 81960 => 0xDC
  | 81961 => 0x0F
  | 81962 => 1
  | 81964 => 99
  | _ => 0

/-- Block 20 holds the records `a` and `c`. -/
def packedBlock : Disk
  | 81920 => 11
  | 81924 => 12
  | 81926 => 1
  | 81928 => 97
  | 81932 => 13
  | 81936 => 0xF4
  | 81937 => 0x0F
  | 81938 => 1
  | 81940 => 99
  | _ => 0

theorem pageSize_ge : -2 ^ 63 ≤ (4096 : Int) := by decide

theorem pageSize_lt : (4096 : Int) < 2 ^ 63 := by decide

def pageInode : VfsInode INodeData :=
  (NewINode.new 2 0).init
    { mode := 0o755, typ := .dir, size := ⟨4096, pageSize_ge, pageSize_lt⟩, blocks := 8, nlink := 2,
      uid := 0, gid := 0, ctime := ⟨0, 0⟩, mtime := ⟨0, 0⟩, atime := ⟨0, 0⟩,
      value := ⟨Vector.ofFn fun i => if i.val = 0 then 20 else 0⟩ }

theorem pageInode_block (rest : Disk) :
    pageExt2.fileBlock (pageDisk rest) pageInode.data 0 = some 20 := rfl

/-- The directory of inode 2 in block 20. -/
def pageDir (rest : Disk)
    (htiled : tiledFrom ((pageDisk rest).tail 81920) 4096 4096 0 = true) :
    Directory pageExt2 (pageDisk rest) where
  inode := pageInode
  blocks := 1
  size_eq := by decide
  size_lt := by decide
  tiled := by
    intro j hj ptr hptr
    cases Nat.lt_one_iff.mp hj
    cases (pageInode_block rest).symm.trans hptr
    exact htiled

def gappedDir : Directory pageExt2 (pageDisk gappedBlock) := pageDir gappedBlock (by decide +kernel)

def packedDir : Directory pageExt2 (pageDisk packedBlock) := pageDir packedBlock (by decide +kernel)

theorem packedDir_packed : packedDir.Packed := by
  have hblock : ∀ j < packedDir.blocks, j = 0 := fun j hj => Nat.lt_one_iff.mp hj
  have hrecords : pageExt2.blockRecords (pageDisk packedBlock) packedDir.inode.data 0 =
      [(⟨11, 12, 1, 0⟩, [97]), (⟨13, 4084, 1, 0⟩, [99])] := by decide +kernel
  refine ⟨⟨?_, ?_⟩, ?_⟩
  · intro j hj hnone
    rw [hblock j hj] at hnone
    cases (pageInode_block packedBlock).symm.trans hnone
  · intro j hj r hr _
    rw [hblock j hj, hrecords] at hr
    cases hr
    decide
  · decide +kernel

theorem readDir_lists_packedDir :
    packedDir.Readable ∧ packedDir.Aligned ∧
      Exact (readDirCall (pageExt2.readDir packedDir.inode) (pageDisk packedBlock)) 0
        packedDir.live :=
  ⟨packedDir_packed.toReadable, packedDir_packed.aligned,
    (readDir_lists_live_iff (by decide) packedDir).2.1 packedDir_packed⟩

/-- The deleted record is not counted, so that a call that stops after `b` resumes before it and
`b` is listed again. -/
theorem readDir_lists_b_twice :
    ((fillSuper ⟨0, 0, true⟩).run (diskKernel (pageDisk gappedBlock) fun _ => .null) []).1 =
        .done pageExt2 ∧
      gappedDir.live = [([97], 11), ([98], 12), ([99], 13)] ∧
      readDirCall (pageExt2.readDir gappedDir.inode) (pageDisk gappedBlock) 0 2 =
        some ([([97], 11), ([98], 12)], 24) ∧
      readDirCall (pageExt2.readDir gappedDir.inode) (pageDisk gappedBlock) 24 2 =
        some ([([98], 12), ([99], 13)], 4096) ∧
      ¬ Exact (readDirCall (pageExt2.readDir gappedDir.inode) (pageDisk gappedBlock)) 0
        gappedDir.live := by
  have hlive : gappedDir.live = [([97], 11), ([98], 12), ([99], 13)] := by decide +kernel
  have hfirst : readDirCall (pageExt2.readDir gappedDir.inode) (pageDisk gappedBlock) 0 2 =
      some ([([97], 11), ([98], 12)], 24) := by decide +kernel
  have hsecond : readDirCall (pageExt2.readDir gappedDir.inode) (pageDisk gappedBlock) 24 2 =
      some ([([98], 12), ([99], 13)], 4096) := by decide +kernel
  refine ⟨by rfl, hlive, hfirst, hsecond, fun hexact => ?_⟩
  obtain ⟨es, p, hcall, -, hcons⟩ := (hexact (fun _ => 2) (fun _ => by decide)).first_call
  cases hfirst.symm.trans hcall
  obtain ⟨rest, hrest, hlists⟩ := hcons (by decide)
  obtain ⟨es, p, hcall, -, hcons⟩ := hlists.first_call
  cases hsecond.symm.trans hcall
  obtain ⟨rest, rfl, -⟩ := hcons (by decide)
  have hlen := congrArg List.length (hlive.symm.trans hrest)
  simp at hlen

end Ext2Fs

end Rko
