import Rko.Ext2Directory

namespace Rko

namespace Ext2Fs

def entryAt (d : Slice) (off : Nat) : Ext2DirEntry :=
  Ext2DirEntry.decode (d.sub off Ext2DirEntry.size)

/-- The memory from `off` to `limit` is tiled exactly by records. -/
def tiledFrom (d : Slice) (limit : Nat) : Nat → Nat → Bool
  | 0, off => off == limit
  | fuel + 1, off => off == limit ||
      ((entryAt d off).recLen.toNat % 4 == 0 &&
        decide (Ext2DirEntry.size + (entryAt d off).nameLen.toNat ≤ (entryAt d off).recLen.toNat) &&
        decide (off + (entryAt d off).recLen.toNat ≤ limit) &&
        tiledFrom d limit fuel (off + (entryAt d off).recLen.toNat))

def recordsFrom (d : Slice) (limit : Nat) : Nat → Nat → List (Ext2DirEntry × List UInt8)
  | 0, _ => []
  | fuel + 1, off =>
    if off = limit then []
    else (entryAt d off, entryName d off (entryAt d off)) ::
      recordsFrom d limit fuel (off + (entryAt d off).recLen.toNat)

def firstNamed (name : List UInt8) : List (Ext2DirEntry × List UInt8) → Option UInt32
  | [] => none
  | (de, n) :: records => if de.inode ≠ 0 ∧ n = name then some de.inode else firstNamed name records

theorem firstNamed_append (name : List UInt8) (xs ys : List (Ext2DirEntry × List UInt8)) :
    firstNamed name (xs ++ ys) = (firstNamed name xs).or (firstNamed name ys) := by
  induction xs with
  | nil => rfl
  | cons x xs ih =>
    simp only [List.cons_append, firstNamed, ih]
    split <;> rfl

theorem entryName_length (d : Slice) (off : Nat) (de : Ext2DirEntry) :
    (entryName d off de).length = de.nameLen.toNat := by
  simp [entryName]

/-- Every round of the scan moves on, so that more fuel than bytes makes no difference. -/
theorem scanRecords_fuel (d : Slice) (name : List UInt8) {fuel fuel' off : Nat}
    (h : d.len ≤ fuel + off) (h' : d.len ≤ fuel' + off) :
    scanRecords d name fuel off = scanRecords d name fuel' off := by
  induction fuel generalizing fuel' off with
  | zero =>
    cases fuel' with
    | zero => rfl
    | succ fuel' => rw [scanRecords, scanRecords, if_neg (by omega)]
  | succ fuel ih =>
    cases fuel' with
    | zero => rw [scanRecords, scanRecords, if_neg (by omega)]
    | succ fuel' =>
      rw [scanRecords, scanRecords]
      split
      next =>
        split
        next => rfl
        next de _ =>
          by_cases hrec : de.recLen = 0 ∨ off + de.recLen.toNat > d.len
          · simp only [hrec, if_true]
          · have hpos := de.recLen_pos fun h0 => hrec (Or.inl h0)
            simp only [hrec, if_false]
            have hrest : scanRecords d name fuel (off + de.recLen.toNat) =
                scanRecords d name fuel' (off + de.recLen.toNat) := ih (by omega) (by omega)
            rw [hrest]
      next => rfl

theorem tiledFrom_succ {d : Slice} {limit fuel off : Nat} (h : tiledFrom d limit (fuel + 1) off = true)
    (hne : off ≠ limit) :
    (entryAt d off).recLen.toNat % 4 = 0 ∧
      Ext2DirEntry.size + (entryAt d off).nameLen.toNat ≤ (entryAt d off).recLen.toNat ∧
      off + (entryAt d off).recLen.toNat ≤ limit ∧
      tiledFrom d limit fuel (off + (entryAt d off).recLen.toNat) = true := by
  simp only [tiledFrom, Bool.or_eq_true, Bool.and_eq_true, beq_iff_eq, decide_eq_true_eq] at h
  rcases h with heq | ⟨⟨⟨hmod, hname⟩, hle⟩, hrest⟩
  · exact absurd heq hne
  · exact ⟨hmod, hname, hle, hrest⟩

theorem recLen_ne_zero {de : Ext2DirEntry}
    (h : Ext2DirEntry.size + de.nameLen.toNat ≤ de.recLen.toNat) : de.recLen ≠ 0 := by
  intro h0
  have hsize : Ext2DirEntry.size = 8 := rfl
  have hzero : de.recLen.toNat = 0 := by rw [h0]; rfl
  omega

theorem entryAt_congr {d d' : Slice} {off : Nat}
    (h : ∀ i < Ext2DirEntry.size, d'.byte (off + i) = d.byte (off + i)) :
    entryAt d' off = entryAt d off := by
  have hsize : Ext2DirEntry.size = 8 := rfl
  have hinode : (d'.sub off Ext2DirEntry.size).le32 0 = (d.sub off Ext2DirEntry.size).le32 0 :=
    Slice.le32_congr h (by omega)
  have hlen : (d'.sub off Ext2DirEntry.size).le16 4 = (d.sub off Ext2DirEntry.size).le16 4 :=
    Slice.le16_congr h (by omega)
  rw [entryAt, entryAt, Ext2DirEntry.decode, Ext2DirEntry.decode, hinode, hlen, Slice.sub_byte,
    Slice.sub_byte, Slice.sub_byte, Slice.sub_byte, h 6 (by omega), h 7 (by omega)]

/-- Tiling and records of a block depend on its bytes only. -/
theorem tiledFrom_congr {d d' : Slice} {limit fuel off : Nat}
    (h : ∀ i < limit, d'.byte i = d.byte i) (htiled : tiledFrom d limit fuel off = true) :
    tiledFrom d' limit fuel off = true ∧
      recordsFrom d' limit fuel off = recordsFrom d limit fuel off := by
  have hsize : Ext2DirEntry.size = 8 := rfl
  induction fuel generalizing off with
  | zero => exact ⟨htiled, rfl⟩
  | succ fuel ih =>
    by_cases heq : off = limit
    · simp only [tiledFrom, recordsFrom, heq, beq_self_eq_true, Bool.true_or, if_true, and_self]
    · obtain ⟨hmod, hname, hle, hrest⟩ := tiledFrom_succ htiled heq
      have hentry : entryAt d' off = entryAt d off := entryAt_congr fun i hi => h _ (by omega)
      have hbytes : entryName d' off (entryAt d off) = entryName d off (entryAt d off) := by
        apply List.map_congr_left
        intro i hi
        have hi : i < (entryAt d off).nameLen.toNat := List.mem_range.mp hi
        exact h _ (by omega)
      obtain ⟨htiled', hrecords⟩ := ih hrest
      constructor
      · simp only [tiledFrom, hentry, hmod, hname, hle, htiled', beq_self_eq_true, decide_true,
          Bool.and_self, Bool.or_true]
      · rw [recordsFrom, recordsFrom, if_neg heq, if_neg heq, hentry, hbytes, hrecords]

/-- One round of the scan on a record of a tiled block that is not the last one of the page. -/
theorem scanRecords_step {d : Slice} {name : List UInt8} {off scan : Nat}
    (halign : (d.base + off) % 4 = 0) (hin : off < d.len - Ext2DirEntry.size)
    (hname : Ext2DirEntry.size + (entryAt d off).nameLen.toNat ≤ (entryAt d off).recLen.toNat)
    (hle : off + (entryAt d off).recLen.toNat ≤ d.len) :
    scanRecords d name (scan + 1) off =
      if (entryAt d off).inode ≠ 0 ∧ entryName d off (entryAt d off) = name then
        .ok (some (entryAt d off).inode)
      else scanRecords d name scan (off + (entryAt d off).recLen.toNat) := by
  have hsize : Ext2DirEntry.size = 8 := rfl
  have hentry : Ext2DirEntry.fromBytes d off = some (entryAt d off) :=
    Ext2DirEntry.fromBytes_eq_some (by omega) halign
  rw [scanRecords, if_pos hin, hentry]
  simp only
  rw [if_neg (by rw [not_or]; exact ⟨recLen_ne_zero hname, by omega⟩), if_neg (by omega)]

/-- Past the end of the own block, scanning goes on with whatever follows in the page. -/
theorem scanRecords_tiled {d : Slice} {name : List UInt8} {limit fuel off scan : Nat}
    (hname : name ≠ []) (hbase : d.base % 4 = 0) (hlimit : limit ≤ d.len) (hoff : off % 4 = 0)
    (htiled : tiledFrom d limit fuel off = true) (hscan : d.len ≤ scan + off) :
    scanRecords d name scan off =
      match firstNamed name (recordsFrom d limit fuel off) with
      | some ino => .ok (some ino)
      | none => scanRecords d name d.len limit := by
  have hsize : Ext2DirEntry.size = 8 := rfl
  induction fuel generalizing off scan with
  | zero =>
    have heq : off = limit := by simpa [tiledFrom] using htiled
    subst heq
    exact scanRecords_fuel d name hscan (by omega)
  | succ fuel ih =>
    by_cases heq : off = limit
    · subst heq
      rw [recordsFrom, if_pos rfl]
      exact scanRecords_fuel d name hscan (by omega)
    · obtain ⟨hmod, hlen, hle, hrest⟩ := tiledFrom_succ htiled heq
      rw [recordsFrom, if_neg heq, firstNamed]
      have hscan' : d.len ≤ scan + (off + (entryAt d off).recLen.toNat) := by omega
      have hnext := ih (by omega) hrest hscan'
      by_cases hin : off < d.len - Ext2DirEntry.size
      · obtain ⟨scan, rfl⟩ : ∃ n, scan = n + 1 := ⟨scan - 1, by omega⟩
        have hfuel : scanRecords d name scan (off + (entryAt d off).recLen.toNat) =
            scanRecords d name (scan + 1) (off + (entryAt d off).recLen.toNat) :=
          scanRecords_fuel d name (by omega) (by omega)
        rw [scanRecords_step (by omega) hin hlen (by omega), hfuel, hnext]
        split <;> rfl
      · -- a record of eight bytes at the end of the page has no name and is never looked at
        have hempty : (entryName d off (entryAt d off)).length = 0 := by
          rw [entryName_length]
          omega
        have hother : entryName d off (entryAt d off) ≠ name := by
          rintro rfl
          exact hname (List.length_eq_zero_iff.mp hempty)
        rw [if_neg (fun hh => hother hh.2), ← hnext]
        cases scan with
        | zero => rw [scanRecords, scanRecords]
        | succ scan => rw [scanRecords, scanRecords, if_neg hin, if_neg (by omega)]

end Ext2Fs

end Rko
