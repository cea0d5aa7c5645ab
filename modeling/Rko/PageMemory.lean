import Mathlib.Tactic.Ring

namespace Rko

def PAGE_SIZE : Nat := 4096

structure Offset where
  val : Int
  ge : -2 ^ 63 ≤ val
  lt : val < 2 ^ 63
deriving DecidableEq, Repr

@[irreducible] def Offset.wrap (x : Int) : Offset :=
  ⟨x.bmod (2 ^ 64), by have := Int.le_bmod (x := x) (m := 2 ^ 64) (by decide); omega,
    by have := Int.bmod_lt (x := x) (m := 2 ^ 64) (by decide); omega⟩

def Offset.ofUInt64 (x : UInt64) : Offset := Offset.wrap x.toNat

theorem Offset.wrap_val {x : Int} (hge : -2 ^ 63 ≤ x) (hlt : x < 2 ^ 63) :
    (Offset.wrap x).val = x := by
  simp only [Offset.wrap, Int.bmod_def]
  omega

theorem Offset.ofUInt64_val {x : UInt64} (hlt : x.toNat < 2 ^ 63) :
    (Offset.ofUInt64 x).val = x.toNat := by
  rw [Offset.ofUInt64, Offset.wrap_val (by omega) (by omega)]

theorem Offset.lt_of_ofUInt64_nonneg {x : UInt64} (h0 : 0 ≤ (Offset.ofUInt64 x).val) :
    x.toNat < 2 ^ 63 := by
  have hlt := x.toNat_lt
  simp only [Offset.ofUInt64, Offset.wrap, Int.bmod_def] at h0
  omega

theorem toNat_ofInt {x : Int} (h0 : 0 ≤ x) (hlt : x < 2 ^ 64) : (UInt64.ofInt x).toNat = x.toNat := by
  simp only [UInt64.ofInt, UInt64.toNat_ofNat']
  omega

/-- A slice of mapped memory. `base` is the offset of its first byte in its page, so it
decides the alignment; `byte` also shows the memory that follows the slice. -/
structure Slice where
  base : Nat
  len : Nat
  byte : Nat → UInt8

namespace Slice

def sub (s : Slice) (start n : Nat) : Slice := ⟨s.base + start, n, fun i => s.byte (start + i)⟩

def bytes (s : Slice) : List UInt8 := (List.range s.len).map s.byte

def le16 (s : Slice) (off : Nat) : UInt16 :=
  UInt16.ofNat ((s.byte off).toNat + 256 * (s.byte (off + 1)).toNat)

def le32 (s : Slice) (off : Nat) : UInt32 :=
  UInt32.ofNat ((s.le16 off).toNat + 65536 * (s.le16 (off + 2)).toNat)

def le64 (s : Slice) (off : Nat) : UInt64 :=
  UInt64.ofNat ((s.le32 off).toNat + 4294967296 * (s.le32 (off + 4)).toNat)

/-- `FromBytes::from_bytes`: a record of `size` bytes at `offset`, if it is inside the
slice and aligned. -/
def fromBytes (size align : Nat) (s : Slice) (offset : Nat) : Option Slice :=
  if s.len < offset + size then none
  else if (s.base + offset) % align ≠ 0 then none
  else some (s.sub offset size)

/-- `FromBytes::from_bytes_to_slice`: the slice cut into records of `size` bytes. -/
def fromBytesToSlice (size align : Nat) (s : Slice) : Option (List Slice) :=
  if size = 0 ∨ s.len % size ≠ 0 then none
  else if s.base % align ≠ 0 then none
  else some ((List.range (s.len / size)).map fun i => s.sub (i * size) size)

@[simp] theorem sub_base (s : Slice) (start n : Nat) : (s.sub start n).base = s.base + start := rfl

@[simp] theorem sub_len (s : Slice) (start n : Nat) : (s.sub start n).len = n := rfl

@[simp] theorem sub_byte (s : Slice) (start n i : Nat) :
    (s.sub start n).byte i = s.byte (start + i) := rfl

theorem sub_le32 (s : Slice) (start n off : Nat) :
    (s.sub start n).le32 off = s.le32 (start + off) := rfl

theorem le16_congr {d d' : Slice} {n : Nat} (h : ∀ i < n, d.byte i = d'.byte i) {off : Nat}
    (hoff : off + 2 ≤ n) : d.le16 off = d'.le16 off := by
  rw [le16, le16, h off (by omega), h (off + 1) (by omega)]

theorem le32_congr {d d' : Slice} {n : Nat} (h : ∀ i < n, d.byte i = d'.byte i) {off : Nat}
    (hoff : off + 4 ≤ n) : d.le32 off = d'.le32 off := by
  rw [le32, le32, le16_congr h (by omega : off + 2 ≤ n), le16_congr h (by omega : off + 2 + 2 ≤ n)]

@[simp] theorem bytes_length (s : Slice) : s.bytes.length = s.len := by simp [bytes]

theorem fromBytes_eq_some {size align offset : Nat} {s : Slice}
    (hlen : offset + size ≤ s.len) (halign : (s.base + offset) % align = 0) :
    fromBytes size align s offset = some (s.sub offset size) := by
  rw [fromBytes, if_neg (by omega), if_neg (by omega)]

theorem fromBytesToSlice_eq_some (size align : Nat) {s : Slice} (hsize : size ≠ 0)
    (hlen : s.len % size = 0) (halign : s.base % align = 0) :
    fromBytesToSlice size align s =
      some ((List.range (s.len / size)).map fun i => s.sub (i * size) size) := by
  rw [fromBytesToSlice, if_neg (by omega), if_neg (by omega)]

theorem length_of_fromBytesToSlice {size align : Nat} {s : Slice} {records : List Slice}
    (h : fromBytesToSlice size align s = some records) : records.length = s.len / size := by
  unfold fromBytesToSlice at h
  split at h
  next => cases h
  next =>
    split at h
    next => cases h
    next =>
      cases Option.some.inj h
      rw [List.length_map, List.length_range]

end Slice

/-- A folio of the page cache: `pages` pages of the device from page `first` on. -/
structure Folio where
  first : Nat
  pages : Nat
  byte : Nat → UInt8

/-- What `kmap_local_folio` shows of the folio from the offset within a page to the end of the
page. -/
def Folio.tail (f : Folio) (offset : Nat) : Slice :=
  ⟨offset % PAGE_SIZE, PAGE_SIZE - offset % PAGE_SIZE, fun i => f.byte (offset % PAGE_SIZE + i)⟩

abbrev Disk := Nat → UInt8

def Disk.page (disk : Disk) (index : Nat) : Folio :=
  ⟨index, 1, fun i => disk (index * PAGE_SIZE + i)⟩

def Disk.tail (disk : Disk) (offset : Nat) : Slice :=
  ⟨offset % PAGE_SIZE, PAGE_SIZE - offset % PAGE_SIZE, fun i => disk (offset + i)⟩

theorem Disk.page_tail (disk : Disk) (offset : Nat) :
    (disk.page (offset / PAGE_SIZE)).tail offset = disk.tail offset := by
  have hbyte : ∀ i, offset / PAGE_SIZE * PAGE_SIZE + (offset % PAGE_SIZE + i) = offset + i := by
    intro i
    have := Nat.div_add_mod' offset PAGE_SIZE
    omega
  simp only [Folio.tail, Disk.page, Disk.tail, hbyte]

@[simp] theorem Disk.tail_base (disk : Disk) (offset : Nat) :
    (disk.tail offset).base = offset % PAGE_SIZE := rfl

@[simp] theorem Disk.tail_len (disk : Disk) (offset : Nat) :
    (disk.tail offset).len = PAGE_SIZE - offset % PAGE_SIZE := rfl

@[simp] theorem Disk.tail_byte (disk : Disk) (offset i : Nat) :
    (disk.tail offset).byte i = disk (offset + i) := rfl

def Disk.le32 (disk : Disk) (offset : Nat) : UInt32 := (disk.tail offset).le32 0

theorem Disk.tail_le32 (disk : Disk) (offset i : Nat) :
    (disk.tail offset).le32 i = disk.le32 (offset + i) := by
  simp [Disk.le32, Slice.le32, Slice.le16, Nat.add_assoc]

end Rko
