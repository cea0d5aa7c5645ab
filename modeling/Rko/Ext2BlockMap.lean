import Rko.Ext2Inode

namespace Rko

open CallProgram

def trailingZeros (x : UInt64) : Nat := ((List.range 64).find? x.toNat.testBit).getD 64

inductive MapType
  | hole | delAlloc | mapped | unwritten | inline
deriving DecidableEq, Repr

structure IoMap where
  type : MapType
  offset : Int
  length : UInt64
  flags : UInt16
  addr : UInt64
  bdev : Ptr
deriving DecidableEq, Repr

def IoMap.MERGED : UInt16 := 0x08

namespace Ext2Fs

/-- `Ext2Fs::offsets`: the path of indices to a block of a file. -/
def offsets (blockSize : UInt32) (block : UInt64) : Option (List UInt32) :=
  let ptrs := (blockSize / 4).toUInt64
  let ptrMask := ptrs - 1
  let ptrBits := UInt64.ofNat (trailingZeros ptrs)
  if block < UInt64.ofNat EXT2_NDIR_BLOCKS then some [block.toUInt32]
  else
    let block := block - UInt64.ofNat EXT2_NDIR_BLOCKS
    if block < ptrs then some [UInt32.ofNat EXT2_IND_BLOCK, block.toUInt32]
    else
      let block := block - ptrs
      if block < 1 <<< (2 * ptrBits) then
        some [UInt32.ofNat EXT2_DIND_BLOCK, (block >>> ptrBits).toUInt32,
          (block &&& ptrMask).toUInt32]
      else
        let block := block - ptrs * ptrs
        if block < ptrs * ptrs * ptrs then
          some [UInt32.ofNat EXT2_TIND_BLOCK, (block >>> (2 * ptrBits)).toUInt32,
            ((block >>> ptrBits) &&& ptrMask).toUInt32, (block &&& ptrMask).toUInt32]
        else none

/-- The loop of `offset_to_block` over the indices after the first. -/
def walkTables (s : Ext2Fs) : List UInt32 → UInt32 → Prog INodeData UInt32
  | [], boffset => pure boffset
  | i :: path, boffset => do
    let b ← mappedFolio (boffset.toNat * s.blockSize.toNat)
    let table ← Program.ofOption Error.EIO (Slice.fromBytesToSlice 4 4 b)
    match table[i.toNat]? with
    | some entry => s.walkTables path (entry.le32 0)
    | none => Program.abort

def offsetToBlock (s : Ext2Fs) (idata : INodeData) (block : Int) : Prog INodeData UInt64 := do
  let boffsets ← Program.ofOption Error.EIO (offsets s.blockSize (UInt64.ofInt block))
  match boffsets with
  | [] => Program.abort
  | first :: path =>
    match idata.dataBlocks[first.toNat]? with
    | none => Program.abort
    | some boffset => do
      let boffset ← s.walkTables path boffset
      pure boffset.toUInt64

/-- `iomap::Operations::begin` for `Ext2Fs`. -/
def iomapBegin (s : Ext2Fs) (sb : SuperBlock) (inode : VfsInode INodeData) (pos length : Int)
    (map : IoMap) : Prog INodeData IoMap :=
  if pos ≥ inode.size.val then
    pure { map with
      offset := pos
      length := UInt64.ofInt length
      flags := IoMap.MERGED
      type := .hole }
  else do
    let blockSize : Int := s.blockSize.toNat
    let block := pos.tdiv blockSize
    let boffset ← s.offsetToBlock inode.data block
    pure { map with
      offset := block * blockSize
      length := s.blockSize.toUInt64
      flags := IoMap.MERGED
      type := .mapped
      bdev := sb.bdev
      addr := boffset * s.blockSize.toUInt64 }

/-- A property of programs that reading a page has and that `?` keeps. -/
structure ReadClosed (P : (α : Type) → Prog INodeData α → Prop) : Prop where
  done : ∀ {α : Type} (a : α), P α (.done a)
  failed : ∀ {α : Type} (e : Error), P α (Program.fail e)
  aborted : ∀ {α : Type}, P α Program.abort
  mapped : ∀ offset, P Slice (mappedFolio offset)
  bind : ∀ {α β : Type} {p : Prog INodeData α} {f : α → Prog INodeData β},
    P α p → (∀ a, P β (f a)) → P β (p.bind f)

section Closed

variable {P : (α : Type) → Prog INodeData α → Prop}

theorem ReadClosed.walkTables (h : ReadClosed P) (s : Ext2Fs) (path : List UInt32)
    (boffset : UInt32) : P UInt32 (s.walkTables path boffset) := by
  induction path generalizing boffset with
  | nil => exact h.done boffset
  | cons i path ih =>
    apply h.bind (h.mapped _)
    intro b
    cases Slice.fromBytesToSlice 4 4 b with
    | none => exact h.failed Error.EIO
    | some table =>
      simp only [Program.ofOption_some, Program.bind_eq, Program.done_bind]
      cases table[i.toNat]? with
      | none => exact h.aborted
      | some entry => exact ih _

theorem ReadClosed.offsetToBlock (h : ReadClosed P) (s : Ext2Fs) (idata : INodeData)
    (block : Int) : P UInt64 (s.offsetToBlock idata block) := by
  unfold Ext2Fs.offsetToBlock
  cases offsets s.blockSize (UInt64.ofInt block) with
  | none => exact h.failed Error.EIO
  | some boffsets =>
    simp only [Program.ofOption_some, Program.bind_eq, Program.done_bind]
    cases boffsets with
    | nil => exact h.aborted
    | cons first path =>
      simp only
      cases idata.dataBlocks[first.toNat]? with
      | none => exact h.aborted
      | some boffset =>
        exact h.bind (h.walkTables s path boffset) fun entry => h.done entry.toUInt64

end Closed

theorem offsetToBlock_strict (s : Ext2Fs) (idata : INodeData) (block : Int) :
    FailStrict (s.offsetToBlock idata block) := by
  have hclosed : ReadClosed fun _ p => FailStrict p :=
    ⟨fun _ => trivial, fun _ => trivial, trivial, mappedFolio_strict, fun hp hf => hp.bind hf⟩
  exact hclosed.offsetToBlock s idata block

theorem iomapBegin_strict (s : Ext2Fs) (sb : SuperBlock) (inode : VfsInode INodeData)
    (pos length : Int) (map : IoMap) : FailStrict (s.iomapBegin sb inode pos length map) := by
  unfold iomapBegin
  split
  next => trivial
  next => exact (s.offsetToBlock_strict _ _).bind fun _ => trivial

end Ext2Fs

end Rko
