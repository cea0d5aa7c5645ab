import Rko.FolioGeometry
import Rko.Tarfs

namespace Rko.TarFs

open CallProgram

theorem fillSuper_dataSize_le {env : Kernel InodeData} {h : History InodeData} {data : TarFsData}
    (hmount : (fillSuper.run env h).1 = .done data) : data.dataSize.toNat ≤ 2 ^ 63 := by
  obtain ⟨scount, h₁, -, hrest⟩ := Program.run_bind_done hmount
  split at hrest
  next => cases hrest
  next =>
    obtain ⟨accepted, h₂, -, hrest⟩ := Program.run_bind_done hrest
    split at hrest
    next => cases hrest
    next =>
      obtain ⟨mapped, h₃, hread, hrest⟩ := Program.run_bind_done hrest
      obtain ⟨hdr, h₄, -, hrest⟩ := Program.run_bind_done hrest
      obtain ⟨-, h₅, -, hrest⟩ := Program.run_bind_done hrest
      obtain ⟨h0, -⟩ := mappedFolio_run_done (congrArg Prod.fst hread)
      have hheader := Offset.lt_of_ofUInt64_nonneg h0
      have hsize : data.dataSize = scount * SECTOR_SIZE := by
        split at hrest
        next => cases hrest
        next =>
          split at hrest
          next => cases hrest
          next =>
            split at hrest
            next => cases hrest
            next =>
              cases hrest
              rfl
      -- the last sector begins below `2 ^ 63` and at a multiple of its size
      have hsectors : ((scount - 1) * SECTOR_SIZE).toNat = (scount - 1).toNat * 512 % 2 ^ 64 :=
        UInt64.toNat_mul _ _
      have hlast : scount * SECTOR_SIZE = (scount - 1) * SECTOR_SIZE + SECTOR_SIZE := by
        have hone : scount = scount - 1 + 1 := (UInt64.sub_add_cancel scount 1).symm
        conv_lhs => rw [hone, UInt64.add_mul, UInt64.one_mul]
      have hnext : (scount * SECTOR_SIZE).toNat =
          (((scount - 1) * SECTOR_SIZE).toNat + 512) % 2 ^ 64 := by
        rw [hlast]
        exact UInt64.toNat_add _ _
      rw [hsize]
      omega

section

variable {data : TarFsData} {ino : UInt64}

/-- Where the record of an inode begins. -/
def recordAddress (data : TarFsData) (ino : UInt64) : Nat :=
  data.inodeTableOffset.toNat + 32 * (ino.toNat - 1)

theorem recordAddress_le (hne : ino ≠ 0) (hle : ino ≤ data.inodeCount) :
    recordAddress data ino + 32 ≤ data.dataSize.toNat := by
  have hpos : 0 < ino.toNat := Nat.pos_of_ne_zero fun h0 => hne (UInt64.toNat_inj.mp h0)
  have hcount := UInt64.le_iff_toNat_le.mp hle
  have htable := data.table_end_le
  unfold recordAddress
  omega

theorem inodeOffset_eq (hne : ino ≠ 0) (hle : ino ≤ data.inodeCount)
    (hsize : data.dataSize.toNat ≤ 2 ^ 63) : inodeOffset data ino = recordAddress data ino := by
  have hend := recordAddress_le hne hle
  have hone : (ino - 1).toNat = ino.toNat - 1 :=
    UInt64.toNat_sub_of_le _ _ (UInt64.le_iff_toNat_le.mpr
      (Nat.pos_of_ne_zero fun h0 => hne (UInt64.toNat_inj.mp h0)))
  have haddress : (data.inodeTableOffset + (ino - 1) * 32).toNat = recordAddress data ino := by
    have hmul : ((ino - 1) * 32).toNat = (ino.toNat - 1) * 32 % 2 ^ 64 := by
      rw [← hone]
      exact UInt64.toNat_mul _ _
    rw [UInt64.toNat_add, hmul]
    unfold recordAddress at hend ⊢
    omega
  rw [inodeOffset, Offset.ofUInt64_val (by omega), haddress]

end

theorem fromBytes_tail_isSome_iff (f : Folio) (address : Nat) :
    (Inode.fromBytes (f.tail address) 0).isSome ↔
      address % PAGE_SIZE + 32 ≤ PAGE_SIZE ∧ address % 8 = 0 := by
  have hbase : (f.tail address).base = address % PAGE_SIZE := rfl
  have hlen : (f.tail address).len = PAGE_SIZE - address % PAGE_SIZE := rfl
  have hmod : address % PAGE_SIZE < PAGE_SIZE := Nat.mod_lt address (by decide)
  have halign : address % PAGE_SIZE % 8 = address % 8 := Nat.mod_mod_of_dvd address (by decide)
  rw [Inode.fromBytes, Option.isSome_map, Slice.fromBytes, hbase, hlen, Nat.zero_add, Nat.add_zero,
    halign]
  by_cases hfits : address % PAGE_SIZE + 32 ≤ PAGE_SIZE
  · rw [if_neg (by omega)]
    by_cases haligned : address % 8 = 0
    · rw [if_neg (by omega)]
      exact ⟨fun _ => ⟨hfits, haligned⟩, fun _ => rfl⟩
    · rw [if_pos haligned]
      exact ⟨fun h => (by cases h), fun h => absurd h.2 haligned⟩
  · rw [if_pos (by omega)]
    exact ⟨fun h => (by cases h), fun h => absurd h.1 hfits⟩

theorem inodeType_error {mode : UInt16} {doffset : UInt64} {e : Error}
    (h : inodeType mode doffset = .error e) : e = Error.ENOENT := by
  unfold inodeType at h
  simp only at h
  repeat' split at h
  all_goals cases h
  rfl

/-- A record that cannot be decoded is the only cause of `EIO`. -/
theorem decodeInode_eio_iff (n : NewINode) (b : Slice) :
    decodeInode n b = .error Error.EIO ↔ (Inode.fromBytes b 0).isSome = false := by
  rw [decodeInode]
  cases Inode.fromBytes b 0 with
  | none => exact ⟨fun _ => rfl, fun _ => rfl⟩
  | some idata =>
    refine ⟨fun h => ?_, fun h => by cases h⟩
    simp only at h
    split at h
    next e he =>
      have hnoent := inodeType_error he
      cases h
      exact absurd hnoent (by decide)
    next => cases h

/-- All pages of the device can be read. -/
def Readable (env : Kernel InodeData) : Prop :=
  ∀ h index, ∃ f, env h (.readCacheFolio index) = FolioResult.folio f

theorem loadInode_outcome {env : Kernel InodeData} {data : TarFsData} {ino : UInt64} {address : Nat}
    (haddress : inodeOffset data ino = address) (h : History InodeData) {f : Folio}
    (hf : env h (.readCacheFolio (address / PAGE_SIZE)) = FolioResult.folio f) (n : NewINode) :
    ((loadInode data n ino).run env h).1 = Outcome.ofExcept (decodeInode n (f.tail address)) := by
  have hread := mappedFolio_run_folio (Int.natCast_nonneg address) hf
  rw [loadInode, haddress, Program.bind_eq, Program.run_bind]
  generalize (mappedFolio (address : Int)).run env h = q at hread
  obtain ⟨out, h'⟩ := q
  obtain rfl : out = .done (f.tail address) := hread
  exact Program.Returns.ofExcept env _ h'

/-- On an accepted image the address of every record lies inside the device and does not leave the
range of `i64`. With readable pages `iget` does not fail with `EIO`, whatever else the kernel does,
exactly when the record lies in one page and is aligned, of which the mount checks nothing. -/
theorem iget_eio_iff {env : Kernel InodeData} {h : History InodeData} {data : TarFsData}
    (hmount : (fillSuper.run env h).1 = .done data) {ino : UInt64} (hne : ino ≠ 0)
    (hle : ino ≤ data.inodeCount) :
    let address := data.inodeTableOffset.toNat + 32 * (ino.toNat - 1)
    (inodeOffset data ino = address ∧ address + 32 ≤ data.dataSize.toNat ∧ address + 32 ≤ 2 ^ 63) ∧
      ((∀ (env' : Kernel InodeData) (h' : History InodeData), Readable env' →
          ((iget data ino).run env' h').1 ≠ .failed Error.EIO) ↔
        address % PAGE_SIZE + 32 ≤ PAGE_SIZE ∧ address % 8 = 0) := by
  intro address
  have hsize := fillSuper_dataSize_le hmount
  have haddress : inodeOffset data ino = address := inodeOffset_eq hne hle hsize
  have hend : address + 32 ≤ data.dataSize.toNat := recordAddress_le hne hle
  have higet : iget data ino = igetWith ino fun n => loadInode data n ino := by
    rw [iget, if_neg]
    rintro (h0 | hgt)
    · exact hne h0
    · exact absurd (UInt64.lt_iff_toNat_lt.mp hgt) (Nat.not_lt.mpr (UInt64.le_iff_toNat_le.mp hle))
  refine ⟨⟨haddress, hend, by omega⟩, ?_, ?_⟩
  · intro hnever
    by_contra hbad
    -- all pages are empty and no inode is cached
    let env' : Kernel InodeData :=
      steadyKernel (fun index => .folio ⟨index, 1, fun _ => 0⟩) (fun ino => .fresh ino 0) 0 0 false
    have hempty : ∀ h, env' h (.readCacheFolio (address / PAGE_SIZE)) =
      FolioResult.folio ⟨address / PAGE_SIZE, 1, fun _ => 0⟩ := fun _ => rfl
    have hnone := fromBytes_tail_isSome_iff ⟨address / PAGE_SIZE, 1, fun _ => 0⟩ address
    apply hnever env' [] fun _ index => ⟨_, rfl⟩
    rw [higet, igetWith_outcome_fresh rfl]
    refine (loadInode_outcome haddress _ (hempty _) _).trans ?_
    rw [(decodeInode_eio_iff _ _).mpr (Bool.eq_false_iff.mpr fun h => hbad (hnone.mp h))]
    rfl
  · intro hgood env' h' hreadable hfailed
    rw [higet] at hfailed
    cases ha : env' h' (.igetLocked ino) with
    | null =>
      rw [igetWith_run_null ha] at hfailed
      exact absurd (Outcome.failed.inj hfailed) (by decide)
    | cached inode =>
      rw [igetWith_run_cached ha] at hfailed
      cases hfailed
    | fresh i sb =>
      obtain ⟨f, hf⟩ := hreadable (h' ++ [⟨.igetLocked ino, .fresh i sb⟩]) (address / PAGE_SIZE)
      rw [igetWith_outcome_fresh ha, loadInode_outcome haddress _ hf] at hfailed
      cases hdecode : decodeInode (.new i sb) (f.tail address) with
      | ok inode =>
        rw [hdecode] at hfailed
        cases hfailed
      | error e =>
        rw [hdecode] at hfailed
        cases Outcome.failed.inj hfailed
        have hnone := (decodeInode_eio_iff _ _).mp hdecode
        rw [(fromBytes_tail_isSome_iff f address).mpr hgood] at hnone
        cases hnone

/-- A device of one page with a table of `count` inodes at `table` and its header in the last sector. -/
def smallTar (table count : UInt8) : Disk := fun i =>
  if i = 3584 then table else if i = 3592 then count else 0

def tarKernel (disk : Disk) : Kernel InodeData :=
  steadyKernel (fun index => .folio (disk.page index)) (fun ino => .fresh ino 0) 8 0 false

/-- The second inode of an aligned table. -/
theorem iget_eio_iff_smallTar :
    ∃ data, (fillSuper.run (tarKernel (smallTar 32 2)) []).1 = .done data ∧
      ∀ (env' : Kernel InodeData) (h' : History InodeData), Readable env' →
        ((iget data 2).run env' h').1 ≠ .failed Error.EIO := by
  have hmount : (fillSuper.run (tarKernel (smallTar 32 2)) []).1 =
      .done ⟨4096, 32, 2, by decide, by decide⟩ := by decide +kernel
  exact ⟨_, hmount, (iget_eio_iff hmount (by decide) (by decide)).2.mpr (by decide)⟩

/-- An image whose table begins at the byte 4 is accepted, its inode lies in one page that can be read,
and still `iget` fails with `EIO`: the record is not aligned. -/
theorem iget_eio_on_accepted_image :
    ∃ data, (fillSuper.run (tarKernel (smallTar 4 1)) []).1 = .done data ∧
      data.inodeTableOffset = 4 ∧ data.inodeCount = 1 ∧ Readable (tarKernel (smallTar 4 1)) ∧
      ((iget data 1).run (tarKernel (smallTar 4 1)) []).1 = .failed Error.EIO := by
  have hmount : (fillSuper.run (tarKernel (smallTar 4 1)) []).1 =
      .done ⟨4096, 4, 1, by decide, by decide⟩ := by decide +kernel
  exact ⟨_, hmount, rfl, rfl, fun _ _ => ⟨_, rfl⟩, by with_unfolding_all rfl⟩

end Rko.TarFs
