import Rko.Ext2Inode
import Rko.Tarfs

namespace Rko

open CallProgram

variable {δ : Type}

def Gains : (op : KernelCall) → op.Resp δ → Nat
  | .igetLocked _, .cached _ => 1
  | .igetLocked _, .fresh _ _ => 1
  | _, _ => 0

def Losses : KernelCall → Nat
  | .igetFailed _ => 1
  | .iput _ => 1
  | _ => 0

def obtained (h : History δ) : Nat := (h.map fun ev => Gains ev.1 ev.2).sum

def released (h : History δ) : Nat := (h.map fun ev => Losses ev.1).sum

@[simp] theorem obtained_append (h h' : History δ) : obtained (h ++ h') = obtained h + obtained h' := by
  simp [obtained]

@[simp] theorem released_append (h h' : History δ) : released (h ++ h') = released h + released h' := by
  simp [released]

def transferred : Outcome Error (VfsInode δ) → Nat
  | .done _ => 1
  | _ => 0

/-- Every reference obtained is transferred to the caller or released exactly once. -/
def Conserved (env : Kernel δ) (p : Prog δ (VfsInode δ)) : Prop :=
  obtained (p.run env []).2 = released (p.run env []).2 + transferred (p.run env []).1

/-- The program ends in a value or an error, and neither obtains nor releases a reference. -/
structure Neutral (env : Kernel δ) (h : History δ) (p : Prog δ (VfsInode δ)) : Prop where
  obtained_eq : obtained (p.run env h).2 = obtained h
  released_eq : released (p.run env h).2 = released h
  ends : (p.run env h).1 ≠ .aborted

theorem drop_run (env : Kernel δ) (h : History δ) (n : NewINode) (e : Error) :
    ((n.drop (δ := δ)).bind fun _ => (Program.fail e : Prog δ (VfsInode δ))).run env h =
      (.failed e, h ++ [⟨.igetFailed n.ino, ()⟩] ++ [⟨.iput n.ino, ()⟩]) := rfl

/-- On an error the `NewINode` releases two references, but only one was obtained. -/
theorem igetWith_conserved_iff {env : Kernel δ} {ino : UInt64}
    {load : NewINode → Prog δ (VfsInode δ)} (hload : ∀ n h, Neutral env h (load n)) :
    Conserved env (igetWith ino load) ↔
      ∀ i sb, env [] (.igetLocked ino) = .fresh i sb →
        ∃ inode, ((load (.new i sb)).run env [⟨.igetLocked ino, .fresh i sb⟩]).1 = .done inode := by
  cases ha : env [] (.igetLocked ino) with
  | null => simp [Conserved, igetWith_run_null ha, obtained, released, transferred, Gains, Losses]
  | cached inode =>
    simp [Conserved, igetWith_run_cached ha, obtained, released, transferred, Gains, Losses]
  | fresh i sb =>
    obtain ⟨hob, hrel, hend⟩ := hload (.new i sb) [⟨.igetLocked ino, .fresh i sb⟩]
    have hfresh : ∀ Q : UInt64 → Ptr → Prop,
        (∀ i' sb', LockedInode.fresh (δ := δ) i sb = .fresh i' sb' → Q i' sb') ↔ Q i sb :=
      fun Q => ⟨fun hq => hq i sb rfl, by rintro hq _ _ ⟨⟩; exact hq⟩
    simp only [Conserved, igetWith_run_fresh ha, hfresh, Program.run_onFail, List.nil_append]
    generalize (load (.new i sb)).run env [⟨.igetLocked ino, .fresh i sb⟩] = r at hob hrel hend
    obtain ⟨o, h'⟩ := r
    have hone : obtained h' = 1 := hob
    have hzero : released h' = 0 := hrel
    cases o with
    | done inode => simp [hone, hzero, transferred]
    | failed e =>
      simp only [drop_run, obtained_append, released_append, hone, hzero]
      simp [obtained, released, Gains, Losses, transferred]
    | aborted => exact absurd rfl hend

def knownType (mode : UInt16) : Bool :=
  mode &&& 0xF000 ∈ [S_IFREG, S_IFDIR, S_IFLNK, S_IFSOCK, S_IFIFO, S_IFCHR, S_IFBLK]

def FolioResult.mapped (offset : Nat) : FolioResult → Option Slice
  | .folio f => some (f.tail offset)
  | _ => none

theorem mappedFolio_run (env : Kernel δ) (h : History δ) {offset : Int} (h0 : 0 ≤ offset) :
    (mappedFolio offset).run env h =
      (match env h (.readCacheFolio (offset.toNat / PAGE_SIZE)) with
        | .failed e => .failed (Error.new ((ptrErr e.ptr).truncate 32))
        | .null => .failed Error.EIO
        | .folio f => .done (f.tail offset.toNat),
      h ++ [⟨.readCacheFolio (offset.toNat / PAGE_SIZE),
        env h (.readCacheFolio (offset.toNat / PAGE_SIZE))⟩]) := by
  rw [mappedFolio, if_neg (by omega)]
  simp only [Program.run]
  cases env h (.readCacheFolio (offset.toNat / PAGE_SIZE)) <;> rfl

theorem readThen_neutral (env : Kernel δ) (h : History δ) (offset : Int)
    (decode : Slice → Except Error (VfsInode δ)) :
    Neutral env h ((mappedFolio offset).bind fun b => Program.ofExcept (decode b)) := by
  by_cases h0 : 0 ≤ offset
  · constructor <;> rw [Program.run_bind, mappedFolio_run env h h0]
    all_goals
      cases env h (.readCacheFolio (offset.toNat / PAGE_SIZE)) with
      | failed e => simp [obtained, released, Gains, Losses]
      | null => simp [obtained, released, Gains, Losses]
      | folio f =>
        simp only
        cases decode (f.tail offset.toNat) <;>
          simp [Program.run, obtained, released, Gains, Losses]
  · rw [mappedFolio, if_pos (by omega)]
    exact ⟨rfl, rfl, by simp [Program.run]⟩

theorem readThen_done_iff (env : Kernel δ) (h : History δ) (offset : Int)
    (decode : Slice → Except Error (VfsInode δ)) :
    (∃ inode, (((mappedFolio offset).bind fun b =>
        Program.ofExcept (decode b)).run env h).1 = .done inode) ↔
      0 ≤ offset ∧ ∃ b inode, decode b = .ok inode ∧
        (env h (.readCacheFolio (offset.toNat / PAGE_SIZE))).mapped offset.toNat = some b := by
  by_cases h0 : 0 ≤ offset
  · rw [Program.run_bind, mappedFolio_run env h h0]
    cases env h (.readCacheFolio (offset.toNat / PAGE_SIZE)) with
    | failed e => simp [FolioResult.mapped]
    | null => simp [FolioResult.mapped]
    | folio f =>
      simp only [FolioResult.mapped, h0, true_and, Option.some.injEq]
      cases hd : decode (f.tail offset.toNat) with
      | ok inode => exact ⟨fun _ => ⟨_, inode, hd, rfl⟩, fun _ => ⟨inode, rfl⟩⟩
      | error e =>
        constructor
        · rintro ⟨inode, hi⟩
          cases hi
        · rintro ⟨b, inode, hb, rfl⟩
          rw [hd] at hb
          cases hb
  · rw [mappedFolio, if_pos (by omega)]
    simp [Program.run, h0]

/-- The inode record in the mapped page is complete and live, has a known type and, if it is a
fast symbolic link, a target inside the page. -/
def Ext2Fs.RecordLoads (s : Ext2Fs) (offset : UInt32) (b : Slice) : Prop :=
  ∃ idata, Ext2DiskInode.fromBytes b (s.inodeStart offset) = some idata ∧
    Ext2Fs.stale idata = false ∧ knownType idata.mode = true ∧
    (idata.mode &&& 0xF000 = S_IFLNK → idata.blocks = 0 → 0 < idata.size.toNat ∧
      s.inodeStart offset + Ext2DiskInode.blockOffset + idata.size.toNat ≤ b.len)

/-- The inode record in the mapped page is complete and has a known type. -/
def TarFs.RecordLoads (b : Slice) : Prop :=
  ∃ idata, TarFs.Inode.fromBytes b 0 = some idata ∧ knownType idata.mode = true

theorem Ext2Fs.fastTarget_ok_iff {b : Slice} {start nameLen : Nat} :
    (∃ target, fastTarget b start nameLen = .ok target) ↔ 0 < nameLen ∧ start + nameLen ≤ b.len := by
  unfold fastTarget
  split
  next h =>
    simp only [reduceCtorEq, exists_false, false_iff]
    omega
  next h =>
    simp only [Except.ok.injEq, exists_eq', true_iff]
    omega

theorem Ext2Fs.inodeType_ok_iff {n : NewINode} {idata : Ext2DiskInode} {b : Slice} {start : Nat} :
    (∃ r, inodeType n idata b start = .ok r) ↔ knownType idata.mode = true ∧
      (idata.mode &&& 0xF000 = S_IFLNK → idata.blocks = 0 → 0 < idata.size.toNat ∧
        start + Ext2DiskInode.blockOffset + idata.size.toNat ≤ b.len) := by
  unfold inodeType knownType
  generalize idata.mode &&& 0xF000 = ifmt
  simp only [S_IFREG, S_IFDIR, S_IFLNK, S_IFSOCK, S_IFIFO, S_IFCHR, S_IFBLK, List.mem_cons,
    List.not_mem_nil, or_false, decide_eq_true_eq]
  by_cases hreg : ifmt = 0o100000
  · simp [hreg]
  by_cases hdir : ifmt = 0o040000
  · simp [hdir]
  by_cases hlnk : ifmt = 0o120000
  · by_cases hfast : idata.blocks = 0
    · have htarget : (∃ target, fastTarget b (start + Ext2DiskInode.blockOffset)
          idata.size.toNat = .ok target) ↔ _ := fastTarget_ok_iff
      simp only [hlnk, hfast]
      rw [← htarget]
      cases fastTarget b (start + Ext2DiskInode.blockOffset) idata.size.toNat <;> simp
    · simp [hlnk, hfast]
  · simp only [hreg, hdir, hlnk, if_false, false_or, false_implies, and_true]
    split_ifs <;> simp_all

/-- The two ways in which the match on the file type fails. -/
theorem Ext2Fs.inodeType_error {n : NewINode} {idata : Ext2DiskInode} {b : Slice} {start : Nat}
    {e : Error} (h : inodeType n idata b start = .error e) :
    knownType idata.mode = false ∧ e = Error.ENOENT ∨
      (idata.mode &&& 0xF000 = S_IFLNK ∧ idata.blocks = 0 ∧
        (idata.size = 0 ∨ b.len < start + Ext2DiskInode.blockOffset + idata.size.toNat)) ∧
          e = Error.EIO := by
  cases hknown : knownType idata.mode with
  | false =>
    refine Or.inl ⟨rfl, ?_⟩
    unfold inodeType at h
    unfold knownType at hknown
    generalize idata.mode &&& 0xF000 = ifmt at h hknown
    simp only [S_IFREG, S_IFDIR, S_IFLNK, S_IFSOCK, S_IFIFO, S_IFCHR, S_IFBLK, List.mem_cons,
      List.not_mem_nil, or_false, decide_eq_false_iff_not, not_or] at hknown
    obtain ⟨hreg, hdir, hlnk, hsock, hfifo, hchr, hblk⟩ := hknown
    simp only [hreg, hdir, hlnk, hsock, hfifo, hchr, hblk, if_false] at h
    exact (Except.error.inj h).symm
  | true =>
    have hbad : ¬ (idata.mode &&& 0xF000 = S_IFLNK → idata.blocks = 0 → 0 < idata.size.toNat ∧
        start + Ext2DiskInode.blockOffset + idata.size.toNat ≤ b.len) := by
      intro hgood
      obtain ⟨r, hr⟩ := (inodeType_ok_iff (n := n)).mpr ⟨hknown, hgood⟩
      cases h.symm.trans hr
    push Not at hbad
    obtain ⟨hlnk, hfast, hlen⟩ := hbad
    have hsize : idata.size = 0 ∨
        b.len < start + Ext2DiskInode.blockOffset + idata.size.toNat := by
      rcases Nat.eq_zero_or_pos idata.size.toNat with hzero | hpos
      · exact Or.inl (UInt32.toNat_inj.mp hzero)
      · exact Or.inr (hlen hpos)
    refine Or.inr ⟨⟨hlnk, hfast, hsize⟩, ?_⟩
    have htarget : fastTarget b (start + Ext2DiskInode.blockOffset) idata.size.toNat =
        .error Error.EIO := by
      refine if_pos ?_
      rcases hsize with hzero | hlong
      · exact Or.inr (by rw [hzero]; rfl)
      · exact Or.inl hlong
    unfold inodeType at h
    rw [hlnk] at h
    rw [if_neg (by decide), if_neg (by decide), if_pos (by rfl), if_pos hfast, htarget] at h
    exact (Except.error.inj h).symm

theorem Ext2Fs.decodeInode_ok_iff {s : Ext2Fs} {n : NewINode} {offset : UInt32} {b : Slice} :
    (∃ inode, s.decodeInode n offset b = .ok inode) ↔ s.RecordLoads offset b := by
  unfold decodeInode RecordLoads
  cases Ext2DiskInode.fromBytes b (s.inodeStart offset) with
  | none => simp
  | some idata =>
    simp only [Option.some.injEq, exists_eq_left']
    cases hstale : stale idata with
    | true => simp
    | false =>
      rw [← inodeType_ok_iff (n := n)]
      simp only [Bool.false_eq_true, if_false, true_and]
      cases inodeType n idata b (s.inodeStart offset) <;> simp

theorem TarFs.inodeType_ok_iff {mode : UInt16} {doffset : UInt64} :
    (∃ typ, inodeType mode doffset = .ok typ) ↔ knownType mode = true := by
  unfold inodeType knownType
  generalize mode &&& 0xF000 = ifmt
  simp only [S_IFREG, S_IFDIR, S_IFLNK, S_IFSOCK, S_IFIFO, S_IFCHR, S_IFBLK, List.mem_cons,
    List.not_mem_nil, or_false, decide_eq_true_eq]
  constructor
  · rintro ⟨typ, htyp⟩
    by_contra hno
    simp only [not_or] at hno
    simp [hno] at htyp
  · rintro (rfl | rfl | rfl | rfl | rfl | rfl | rfl) <;> simp

theorem TarFs.decodeInode_ok_iff {n : NewINode} {b : Slice} :
    (∃ inode, TarFs.decodeInode n b = .ok inode) ↔ TarFs.RecordLoads b := by
  unfold decodeInode RecordLoads
  cases Inode.fromBytes b 0 with
  | none => simp
  | some idata =>
    have htype : (∃ typ, inodeType idata.mode idata.offset = .ok typ) ↔ _ := inodeType_ok_iff
    simp only [Option.some.injEq, exists_eq_left', ← htype]
    cases inodeType idata.mode idata.offset <;> simp

theorem Ext2Fs.iget_conserved_iff (s : Ext2Fs) (ino : UInt32) (env : Kernel INodeData) :
    Conserved env (s.iget ino) ↔
      ∀ g offset i sb, s.locate ino = .ok (g, offset) →
        env [] (.igetLocked ino.toUInt64) = .fresh i sb →
        ∃ b, (env [⟨.igetLocked ino.toUInt64, .fresh i sb⟩]
            (.readCacheFolio ((s.inodeBlockOffset g offset).toNat / PAGE_SIZE))).mapped
              (s.inodeBlockOffset g offset).toNat = some b ∧ s.RecordLoads offset b := by
  cases hl : s.locate ino with
  | error e =>
    have hrun : s.iget ino = Program.fail e := by simp [iget, hl, Program.bind_eq]
    simp [Conserved, hrun, Program.run, obtained, released, transferred]
  | ok p =>
    obtain ⟨g, offset⟩ := p
    have higet : s.iget ino = igetWith ino.toUInt64 fun n => s.loadInode n g offset := by
      simp only [iget, hl, Program.ofExcept_ok, Program.bind_eq, Program.done_bind]
    have hoffset : 0 ≤ s.inodeBlockOffset g offset := by
      unfold inodeBlockOffset
      positivity
    have hloads := fun n h => readThen_done_iff env h (s.inodeBlockOffset g offset) (s.decodeInode n offset)
    have hneutral : ∀ n h, Neutral env h (s.loadInode n g offset) := fun n h =>
      readThen_neutral env h (s.inodeBlockOffset g offset) (s.decodeInode n offset)
    rw [higet, igetWith_conserved_iff hneutral]
    constructor
    · rintro hd g' offset' i sb ⟨⟩ hfresh
      obtain ⟨_, b, inode, hb, hm⟩ := (hloads _ _).mp (hd i sb hfresh)
      exact ⟨b, hm, decodeInode_ok_iff.mp ⟨inode, hb⟩⟩
    · intro hd i sb hfresh
      obtain ⟨b, hm, hb⟩ := hd g offset i sb rfl hfresh
      obtain ⟨inode, hi⟩ := (decodeInode_ok_iff (n := .new i sb)).mpr hb
      exact (hloads _ _).mpr ⟨hoffset, b, inode, hi, hm⟩

theorem TarFs.iget_conserved_iff (data : TarFsData) (ino : UInt64) (env : Kernel TarFs.InodeData) :
    Conserved env (TarFs.iget data ino) ↔
      ∀ i sb, ¬ (ino = 0 ∨ ino > data.inodeCount) → env [] (.igetLocked ino) = .fresh i sb →
        0 ≤ inodeOffset data ino ∧
        ∃ b, (env [⟨.igetLocked ino, .fresh i sb⟩]
            (.readCacheFolio ((inodeOffset data ino).toNat / PAGE_SIZE))).mapped
              (inodeOffset data ino).toNat = some b ∧ TarFs.RecordLoads b := by
  by_cases hino : ino = 0 ∨ ino > data.inodeCount
  · have hrun : TarFs.iget data ino = Program.fail Error.ENOENT := by rw [iget, if_pos hino]
    simp [Conserved, hrun, Program.run, obtained, released, transferred, hino]
  · have higet : TarFs.iget data ino = igetWith ino fun n => loadInode data n ino := by
      rw [iget, if_neg hino]
    have hloads := fun n h => readThen_done_iff env h (inodeOffset data ino) (decodeInode n)
    have hneutral : ∀ n h, Neutral env h (loadInode data n ino) := fun n h =>
      readThen_neutral env h (inodeOffset data ino) (decodeInode n)
    rw [higet, igetWith_conserved_iff hneutral]
    constructor
    · intro hd i sb _ hfresh
      obtain ⟨h0, b, inode, hb, hm⟩ := (hloads _ _).mp (hd i sb hfresh)
      exact ⟨h0, b, hm, decodeInode_ok_iff.mp ⟨inode, hb⟩⟩
    · intro hd i sb hfresh
      obtain ⟨h0, b, hm, hb⟩ := hd i sb hino hfresh
      obtain ⟨inode, hi⟩ := (decodeInode_ok_iff (n := .new i sb)).mpr hb
      exact (hloads _ _).mpr ⟨h0, b, inode, hi, hm⟩

/-- A reference from `iget_locked` is kept exactly when no error occurs after it was obtained:
the inode number is refused before, nothing or a cached inode is returned, or the record of the
new inode can be read and loaded. -/
theorem iget_conserves_references_iff (s : Ext2Fs) (ino : UInt32) (env : Kernel INodeData)
    (data : TarFsData) (tarIno : UInt64) (tarEnv : Kernel TarFs.InodeData) :
    (Conserved env (s.iget ino) ↔
      ∀ g offset i sb, s.locate ino = .ok (g, offset) →
        env [] (.igetLocked ino.toUInt64) = .fresh i sb →
        ∃ b, (env [⟨.igetLocked ino.toUInt64, .fresh i sb⟩]
            (.readCacheFolio ((s.inodeBlockOffset g offset).toNat / PAGE_SIZE))).mapped
              (s.inodeBlockOffset g offset).toNat = some b ∧ s.RecordLoads offset b) ∧
    (Conserved tarEnv (TarFs.iget data tarIno) ↔
      ∀ i sb, ¬ (tarIno = 0 ∨ tarIno > data.inodeCount) → tarEnv [] (.igetLocked tarIno) = .fresh i sb →
        0 ≤ TarFs.inodeOffset data tarIno ∧
        ∃ b, (tarEnv [⟨.igetLocked tarIno, .fresh i sb⟩]
            (.readCacheFolio ((TarFs.inodeOffset data tarIno).toNat / PAGE_SIZE))).mapped
              (TarFs.inodeOffset data tarIno).toNat = some b ∧ TarFs.RecordLoads b) :=
  ⟨s.iget_conserved_iff ino env, TarFs.iget_conserved_iff data tarIno tarEnv⟩

/-- Inode 12 of an otherwise empty inode table is stale: its one reference is released by
`iget_failed` and once more by `iput`. -/
theorem iget_releases_stale_inode_twice :
    ¬ Conserved (Ext2Fs.diskKernel (Ext2Fs.smallDisk fun _ => 0) fun ino => .fresh ino 0)
      (Ext2Fs.smallExt2.iget 12) := by
  have hrun : (fun r : Outcome Error (VfsInode INodeData) × History INodeData =>
      (obtained r.2, released r.2, transferred r.1))
      ((Ext2Fs.smallExt2.iget 12).run
        (Ext2Fs.diskKernel (Ext2Fs.smallDisk fun _ => 0) fun ino => .fresh ino 0) []) =
          (1, 2, 0) := by decide +kernel
  simp only [Prod.mk.injEq] at hrun
  unfold Conserved
  omega

end Rko
