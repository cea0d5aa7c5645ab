import Rko.FolioGeometry
import Rko.MapperPieces
import Rko.Tarfs

namespace Rko.TarFs

open CallProgram RangeCut

theorem copyPage_ok {toRead : Nat} {state state' : Nat × LockedFolio} {page : Slice}
    (h : copyPage toRead state page = .ok state') :
    let n := min page.len (toRead - state.1)
    state'.1 = state.1 + n ∧ state'.2 = state.2.fill state.1 n page.byte := by
  intro n
  rw [copyPage] at h
  split at h
  next folio hwrite =>
    cases h
    refine ⟨rfl, ?_⟩
    have hfill := LockedFolio.write_ok hwrite
    have hbyte : (page.sub 0 n).byte = page.byte := by
      funext i
      rw [Slice.sub_byte, Nat.zero_add]
    rw [hbyte] at hfill
    exact hfill
  next => cases h

theorem copyPage_isOk {toRead : Nat} {state : Nat × LockedFolio} (page : Slice)
    (hread : state.1 ≤ toRead) (hle : toRead ≤ state.2.size) (hlt : toRead < 2 ^ 64) :
    ∃ state', copyPage toRead state page = .ok state' := by
  obtain ⟨folio, hwrite⟩ :
      ∃ folio, state.2.write state.1 (page.sub 0 (min page.len (toRead - state.1))) = .ok folio :=
    state.2.forEachPage_isOk (by rw [Slice.sub_len]; omega) (by rw [Slice.sub_len]; omega) _ _
  exact ⟨(state.1 + min page.len (toRead - state.1), folio), by rw [copyPage, hwrite]⟩

/-- The first `written` bytes of the folio are those of the device from `d` on, and the others zero. -/
structure CopiedTo (disk : Disk) (d size written : Nat) (folio : LockedFolio) : Prop where
  size_eq : folio.size = size
  byte_eq : ∀ i < size, folio.byte i = if i < written then disk (d + i) else 0

theorem CopiedTo.fill {disk : Disk} {d size written n : Nat} {folio : LockedFolio}
    (h : CopiedTo disk d size written folio) {piece : Nat → UInt8}
    (hpiece : ∀ j < n, piece j = disk (d + written + j)) :
    CopiedTo disk d size (written + n) (folio.fill written n piece) where
  size_eq := h.size_eq
  byte_eq := by
    intro i hi
    rw [LockedFolio.fill_byte]
    by_cases hnew : written ≤ i ∧ i < written + n
    · have hplace : d + written + (i - written) = d + i := by omega
      rw [if_pos hnew, if_pos hnew.2, hpiece _ (by omega), hplace]
    · rw [if_neg hnew, h.byte_eq i hi]
      by_cases hold : i < written
      · rw [if_pos hold, if_pos (by omega)]
      · rw [if_neg hold, if_neg (by omega)]

/-- The byte at `i` of a file; there are zeros behind its end. -/
def contentByte (disk : Disk) (inode : VfsInode InodeData) (i : Nat) : UInt8 :=
  if i < inode.size.val.toNat then disk (inode.data.offset.toNat + i) else 0

/-- The callback of `read_folio`. -/
def copyInto (toRead : Nat) (state : Nat × LockedFolio) (page : Slice) :
    Prog InodeData ((Nat × LockedFolio) × Option Unit) :=
  (Program.ofExcept (copyPage toRead state page)).bind fun state => pure (state, none)

/-- `read_folio` in terms of natural numbers. -/
theorem readFolio_eq {inode : VfsInode InodeData} (hsize : 0 ≤ inode.size.val)
    (hdevice : inode.data.offset.toNat + inode.size.val.toNat < 2 ^ 63) {folio : LockedFolio}
    (hpos : 0 ≤ folio.pos) (hpos' : folio.pos < 2 ^ 63) :
    readFolio inode folio =
      (Program.ofExcept (folio.zeroOut 0 folio.size)).bind fun zeroed =>
        if inode.size.val.toNat ≤ folio.pos.toNat then pure zeroed
        else
          let toRead := min zeroed.size (inode.size.val.toNat - folio.pos.toNat)
          (forEachPage ((inode.data.offset.toNat + folio.pos.toNat : Nat) : Int) (toRead : Int)
            (copyInto toRead) (0, zeroed)).bind fun r => pure r.1.2 := by
  have hposNat : (UInt64.ofInt folio.pos).toNat = folio.pos.toNat := toNat_ofInt hpos (by omega)
  have hsizeNat : (UInt64.ofInt inode.size.val).toNat = inode.size.val.toNat :=
    toNat_ofInt hsize (by have hlt := inode.size.lt; omega)
  have hpast : UInt64.ofInt folio.pos ≥ UInt64.ofInt inode.size.val ↔
      inode.size.val.toNat ≤ folio.pos.toNat := by
    rw [ge_iff_le, UInt64.le_iff_toNat_le, hposNat, hsizeNat]
  rw [readFolio, Program.bind_eq]
  congr 1
  funext zeroed
  by_cases hle : inode.size.val.toNat ≤ folio.pos.toNat
  · rw [if_pos (hpast.mpr hle), if_pos hle]
  · rw [if_neg (fun h => hle (hpast.mp h)), if_neg hle]
    have hleft : (UInt64.ofInt inode.size.val - UInt64.ofInt folio.pos).toNat =
        inode.size.val.toNat - folio.pos.toNat := by
      rw [UInt64.toNat_sub_of_le _ _ (UInt64.le_iff_toNat_le.mpr (by omega)), hposNat, hsizeNat]
    have hstart : (inode.data.offset + UInt64.ofInt folio.pos).toNat =
        inode.data.offset.toNat + folio.pos.toNat := by
      rw [UInt64.toNat_add, hposNat]
      omega
    have hwrap : (Offset.ofUInt64 (inode.data.offset + UInt64.ofInt folio.pos)).val =
        ((inode.data.offset.toNat + folio.pos.toNat : Nat) : Int) := by
      rw [Offset.ofUInt64_val (by omega), hstart]
    simp only [hleft, hwrap]
    rfl

section

variable {env : Kernel InodeData} {disk : Disk}

/-- One page of the range is copied behind what is there already. -/
theorem copyPage_copied (hd : ReadsPages env disk) {d toRead size k : Nat}
    {state state' : Nat × LockedFolio} {h : History InodeData} {b : Slice}
    (hle : d + state.1 + k ≤ d + toRead) (hpage : (d + state.1) % PAGE_SIZE + k ≤ PAGE_SIZE)
    (hcopied : CopiedTo disk d size state.1 state.2)
    (hread : ((mappedFolio (d + state.1 : Nat)).run env h).1 = .done b)
    (hcopy : copyPage toRead state (b.sub 0 k) = .ok state') :
    state'.1 = state.1 + k ∧ CopiedTo disk d size state'.1 state'.2 := by
  obtain ⟨-, -, hlen, hbytes⟩ := hd.mappedFolio hread
  rw [Int.toNat_natCast] at hlen hbytes
  obtain ⟨hwritten, hfill⟩ := copyPage_ok hcopy
  have hn : min (b.sub 0 k).len (toRead - state.1) = k := by
    rw [Slice.sub_len]
    omega
  rw [hn] at hwritten hfill
  refine ⟨hwritten, ?_⟩
  rw [hwritten, hfill]
  apply hcopied.fill
  intro j hj
  rw [Slice.sub_byte, Nat.zero_add]
  exact hbytes j (by omega)

/-- Copying the pages of a range of the device into a zeroed folio. -/
theorem copyPages_copied (hd : ReadsPages env disk) {d toRead size : Nat} (hmax : d + toRead < 2 ^ 63)
    {folio : LockedFolio} (hfolio : CopiedTo disk d size 0 folio) {h : History InodeData}
    {r : (Nat × LockedFolio) × Option Unit}
    (hrun : ((forEachPage (d : Int) (toRead : Int) (copyInto toRead) (0, folio)).run env h).1 =
      .done r) :
    CopiedTo disk d size toRead r.1.2 := by
  rw [forEachPage_eq_visit _ hmax] at hrun
  have hend : d + toRead = d + r.1.1 ∧ CopiedTo disk d size r.1.1 r.1.2 := by
    refine visit_keeps (e := d + toRead)
      (I := fun a state => a = d + state.1 ∧ CopiedTo disk d size state.1 state.2) ?_
      (pieces_tiles (by decide) d toRead) (Nat.le_refl _) ⟨rfl, hfolio⟩ hrun
    rintro _ k state state' ret h h' b hle hpage ⟨rfl, hcopied⟩ hread hcb
    obtain ⟨next, h₁, hcopy, hret⟩ := Program.run_bind_done hcb
    cases hret
    obtain ⟨hwritten, hcopied'⟩ :=
      copyPage_copied hd hle hpage hcopied hread (Program.run_ofExcept_done (congrArg Prod.fst hcopy))
    exact ⟨rfl, by omega, hcopied'⟩
  obtain ⟨hwritten, hcopied⟩ := hend
  have htotal : r.1.1 = toRead := by omega
  rwa [htotal] at hcopied

/-- A folio that was read without an error holds the contents of the file. -/
theorem readFolio_content (hd : ReadsPages env disk) {inode : VfsInode InodeData}
    (hsize : 0 ≤ inode.size.val)
    (hdevice : inode.data.offset.toNat + inode.size.val.toNat < 2 ^ 63) {folio folio' : LockedFolio}
    (hpos : 0 ≤ folio.pos) (hpos' : folio.pos < 2 ^ 63) {h : History InodeData}
    (hrun : ((readFolio inode folio).run env h).1 = .done folio') :
    folio'.size = folio.size ∧
      ∀ i < folio.size, folio'.byte i = contentByte disk inode (folio.pos.toNat + i) := by
  rw [readFolio_eq hsize hdevice hpos hpos'] at hrun
  obtain ⟨zeroed, h₁, hzero, hrest⟩ := Program.run_bind_done hrun
  have hfill := LockedFolio.zeroOut_ok (Program.run_ofExcept_done (congrArg Prod.fst hzero))
  obtain ⟨d, hd'⟩ : ∃ d, d = inode.data.offset.toNat + folio.pos.toNat := ⟨_, rfl⟩
  have hzeroed : CopiedTo disk d folio.size 0 zeroed := by
    rw [hfill]
    refine ⟨rfl, fun i hi => ?_⟩
    rw [LockedFolio.fill_byte, if_pos ⟨Nat.zero_le i, by omega⟩, if_neg (Nat.not_lt_zero i)]
  rw [← hd'] at hrest
  by_cases hpast : inode.size.val.toNat ≤ folio.pos.toNat
  · rw [if_pos hpast] at hrest
    cases hrest
    refine ⟨hzeroed.size_eq, fun i hi => ?_⟩
    rw [hzeroed.byte_eq i hi, if_neg (Nat.not_lt_zero i), contentByte, if_neg (by omega)]
  · rw [if_neg hpast, hzeroed.size_eq] at hrest
    have hmax : d + min folio.size (inode.size.val.toNat - folio.pos.toNat) < 2 ^ 63 := by
      have hmin := Nat.min_le_right folio.size (inode.size.val.toNat - folio.pos.toNat)
      omega
    obtain ⟨r, h₂, hcopy, hret⟩ := Program.run_bind_done hrest
    cases hret
    have hcopied := copyPages_copied hd hmax hzeroed (congrArg Prod.fst hcopy)
    refine ⟨hcopied.size_eq, fun i hi => ?_⟩
    rw [hcopied.byte_eq i hi, contentByte, hd', Nat.add_assoc]
    by_cases hin : folio.pos.toNat + i < inode.size.val.toNat
    · rw [if_pos hin, if_pos (by omega)]
    · rw [if_neg hin, if_neg (by omega)]

/-- A folio of a file's page cache that was read without an error holds the bytes of the file, and
zeros behind its end, whatever was in the folio before and wherever the file lies on the device. -/
theorem readFolio_exact (hd : ReadsPages env disk) {inode : VfsInode InodeData}
    (hsize : 0 ≤ inode.size.val)
    (hdevice : inode.data.offset.toNat + inode.size.val.toNat < 2 ^ 63) {folio folio' : LockedFolio}
    (hpos : 0 ≤ folio.pos) (hpos' : folio.pos < 2 ^ 63) {h : History InodeData}
    (hrun : ((readFolio inode folio).run env h).1 = .done folio') :
    folio'.size = folio.size ∧ ∀ i < folio.size,
      folio'.byte i =
        if folio.pos.toNat + i < inode.size.val.toNat then
          disk (inode.data.offset.toNat + folio.pos.toNat + i)
        else 0 := by
  obtain ⟨hsame, hbytes⟩ := readFolio_content hd hsize hdevice hpos hpos' hrun
  refine ⟨hsame, fun i hi => ?_⟩
  rw [hbytes i hi, contentByte, Nat.add_assoc]

/-- On a device that can be read, a folio of a file that lies on it is read without an error. -/
theorem readFolio_returns {size : Nat} (hd : ReadsWithin env disk size) {inode : VfsInode InodeData}
    (hsize : 0 ≤ inode.size.val)
    (hdevice : inode.data.offset.toNat + inode.size.val.toNat ≤ size) (hmax : size < 2 ^ 63)
    {folio : LockedFolio} (hpos : 0 ≤ folio.pos) (hpos' : folio.pos < 2 ^ 63)
    (hfolio : folio.size < 2 ^ 64) :
    ∃ folio', Program.Returns env (readFolio inode folio) (.done folio') := by
  obtain ⟨zeroed, hzero⟩ : ∃ zeroed, folio.zeroOut 0 folio.size = .ok zeroed :=
    folio.forEachPage_isOk (by omega) (by omega) _ _
  rw [readFolio_eq hsize (by omega) hpos hpos', hzero, Program.ofExcept_ok, Program.done_bind]
  by_cases hpast : inode.size.val.toNat ≤ folio.pos.toNat
  · rw [if_pos hpast]
    exact ⟨zeroed, Program.Returns.done env _⟩
  · rw [if_neg hpast]
    obtain ⟨d, hd'⟩ : ∃ d, d = inode.data.offset.toNat + folio.pos.toNat := ⟨_, rfl⟩
    obtain ⟨toRead, htoRead⟩ : ∃ n, n = min zeroed.size (inode.size.val.toNat - folio.pos.toNat) :=
      ⟨_, rfl⟩
    have hend : d + toRead ≤ size := by omega
    have hstep : ∀ {a k : Nat} {state : Nat × LockedFolio}, a + k ≤ d + toRead →
        a % PAGE_SIZE + k ≤ PAGE_SIZE → a = d + state.1 ∧ state.2.size = zeroed.size →
        ∃ state', copyInto toRead state ((disk.tail a).sub 0 k) = pure (state', none) ∧
          a + k = d + state'.1 ∧ state'.2.size = zeroed.size := by
      rintro _ k state hle hpage ⟨rfl, hsame⟩
      obtain ⟨state', hcopy⟩ := copyPage_isOk ((disk.tail (d + state.1)).sub 0 k)
        (by omega : state.1 ≤ toRead) (by omega) (by omega)
      obtain ⟨hwritten, hfill⟩ := copyPage_ok hcopy
      rw [Slice.sub_len] at hwritten
      refine ⟨state', by rw [copyInto, hcopy]; rfl, by omega, ?_⟩
      rw [hfill, LockedFolio.fill_size, hsame]
    obtain ⟨state, hcopies⟩ : ∃ state, Program.Returns env
        (forEachPage (d : Int) (toRead : Int) (copyInto toRead) (0, zeroed)) (.done (state, none)) := by
      rw [forEachPage_eq_visit _ (by omega)]
      obtain ⟨state, -, hvisit⟩ : ∃ state : Nat × LockedFolio,
          (d + toRead = d + state.1 ∧ state.2.size = zeroed.size) ∧
          Program.Unseen (fun _ => (none : Option Unit)) env
            (visit (fun s p mapped => copyInto toRead s (mapped.sub 0 p.2))
              (pieces PAGE_SIZE d toRead) (0, zeroed)) (state, none) :=
        visit_completes (I := fun a (state : Nat × LockedFolio) =>
          a = d + state.1 ∧ state.2.size = zeroed.size) hd (fun _ => rfl) hend hstep
          (pieces_tiles (by decide) d toRead) (Nat.le_refl _) ⟨rfl, rfl⟩
      exact ⟨state, hvisit.returns⟩
    rw [← hd', ← htoRead]
    exact ⟨state.2, hcopies.bind (Program.Returns.done env _)⟩

end

/-- A file of five bytes over a page boundary, read into a folio that had other contents. -/
theorem readFolio_exact_twoPages :
    let disk : Disk := fun i => UInt8.ofNat i
    let env : Kernel InodeData :=
      steadyKernel (fun index => .folio (disk.page index)) (fun _ => .null) 0 0 false
    let inode := (NewINode.new 2 0).init (inodeParams ⟨0o100644, 0, 0, 0, 0, 0, 5, 4094⟩ .reg)
    ∃ folio', ((readFolio inode ⟨0, 4096, fun _ => 77⟩).run env []).1 = .done folio' ∧
      folio'.byte 1 = 255 ∧ folio'.byte 4 = 2 ∧ folio'.byte 5 = 0 := by
  intro disk env inode
  have hval : inode.size.val = 5 := Offset.ofUInt64_val (by decide)
  have hoffset : inode.data.offset.toNat = 4094 := rfl
  have hreads : ReadsDisk env disk := fun _ _ => rfl
  have hwithin : ReadsWithin env disk 8192 := fun _ _ _ => rfl
  obtain ⟨folio', hret⟩ : ∃ folio', Program.Returns env
      (readFolio inode ⟨0, 4096, fun _ => 77⟩) (.done folio') :=
    readFolio_returns hwithin (by omega) (by omega) (by decide) (by decide) (by decide) (by decide)
  obtain ⟨-, hbytes⟩ := readFolio_exact hreads.readsPages (by omega) (by omega) (by decide)
    (by decide) (hret [])
  rw [hval, hoffset] at hbytes
  exact ⟨folio', hret [], hbytes 1 (by decide), hbytes 4 (by decide), hbytes 5 (by decide)⟩

end Rko.TarFs
