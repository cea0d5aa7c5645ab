import Rko.MapperPieces
import Rko.Tarfs

namespace Rko

open CallProgram RangeCut

namespace TarFs

/-- The end of the last page that holds bytes of a device of `size` bytes. -/
def pageLimit (size : Nat) : Nat := (size + PAGE_SIZE - 1) / PAGE_SIZE * PAGE_SIZE

theorem page_inside_iff {size o : Nat} : o / PAGE_SIZE * PAGE_SIZE < size ↔ o < pageLimit size := by
  unfold pageLimit PAGE_SIZE
  omega

theorem le_pageLimit (size : Nat) : size ≤ pageLimit size := by
  unfold pageLimit PAGE_SIZE
  omega

def storedBytes (disk : Disk) (o n : Nat) : List UInt8 := (List.range n).map fun i => disk (o + i)

/-- As far as the pages of the device go, the bytes at `o` are those of the name. -/
def agrees (disk : Disk) (limit : Nat) : List UInt8 → Nat → Bool
  | [], _ => true
  | b :: bs, o => (decide (limit ≤ o) || disk o == b) && agrees disk limit bs (o + 1)

theorem storedBytes_succ (disk : Disk) (o n : Nat) :
    storedBytes disk o (n + 1) = disk o :: storedBytes disk (o + 1) n := by
  simp only [storedBytes, List.range_succ_eq_map, List.map_cons, List.map_map, Nat.add_zero]
  congr 2
  funext i
  simp only [Function.comp]
  congr 1
  omega

theorem agrees_append (disk : Disk) (limit : Nat) (xs ys : List UInt8) (o : Nat) :
    agrees disk limit (xs ++ ys) o =
      (agrees disk limit xs o && agrees disk limit ys (o + xs.length)) := by
  induction xs generalizing o with
  | nil => rfl
  | cons x xs ih =>
    rw [List.cons_append, agrees, agrees, ih, List.length_cons, Bool.and_assoc]
    congr 3
    omega

theorem agrees_inside {disk : Disk} {limit : Nat} {xs : List UInt8} {o : Nat}
    (h : o + xs.length ≤ limit) :
    agrees disk limit xs o = (storedBytes disk o xs.length == xs) := by
  induction xs generalizing o with
  | nil => rfl
  | cons x xs ih =>
    rw [List.length_cons] at h
    have hin : decide (limit ≤ o) = false := by simpa using (by omega : o < limit)
    rw [agrees, List.length_cons, storedBytes_succ, ih (by omega), hin, Bool.false_or]
    rfl

theorem agrees_outside {disk : Disk} {limit : Nat} {xs : List UInt8} {o : Nat} (h : limit ≤ o) :
    agrees disk limit xs o = true := by
  induction xs generalizing o with
  | nil => rfl
  | cons x xs ih =>
    rw [agrees, ih (by omega)]
    simp [h]

theorem agrees_split (disk : Disk) {limit o n : Nat} {xs : List UInt8} (hn : n ≤ xs.length)
    (h : o + n ≤ limit) :
    agrees disk limit xs o =
      (storedBytes disk o n == xs.take n && agrees disk limit (xs.drop n) (o + n)) := by
  have hlen : (xs.take n).length = n := by
    rw [List.length_take]
    omega
  have hsplit := agrees_append disk limit (xs.take n) (xs.drop n) o
  have hfirst : agrees disk limit (xs.take n) o = (storedBytes disk o n == xs.take n) := by
    rw [agrees_inside (by omega), hlen]
  rwa [List.take_append_drop, hlen, hfirst] at hsplit

theorem agrees_drop {disk : Disk} {limit o n : Nat} {xs : List UInt8} (hn : n ≤ xs.length)
    (h : o + n ≤ limit) (hbytes : storedBytes disk o n = xs.take n) :
    agrees disk limit xs o = agrees disk limit (xs.drop n) (o + n) := by
  rw [agrees_split disk hn h, hbytes, beq_self_eq_true, Bool.true_and]

/-- Reading a page past the end of the device fails with this error. -/
def FailsOutside (env : Kernel InodeData) (size : Nat) (err : Errno) : Prop :=
  ∀ h index, size ≤ index * PAGE_SIZE → env h (.readCacheFolio index) = FolioResult.failed err

def nameVerdict (disk : Disk) (size : Nat) (err : Errno) (name : List UInt8) (o : Nat) :
    Prog InodeData Bool :=
  if agrees disk (pageLimit size) name o = false then pure false
  else if o + name.length ≤ pageLimit size then pure true
  else Program.fail (Error.new err.int)

section Verdict

variable {disk : Disk} {size o n : Nat} {err : Errno} {name : List UInt8}

theorem nameVerdict_nil (h : o ≤ pageLimit size) :
    nameVerdict disk size err [] o = pure true := by
  rw [nameVerdict, if_neg (by simp [agrees]), if_pos (by simpa using h)]

/-- The verdict on the rest of the name, once its first bytes agree. -/
theorem nameVerdict_drop (hn : n ≤ name.length) (h : o + n ≤ pageLimit size)
    (hbytes : storedBytes disk o n = name.take n) :
    nameVerdict disk size err name o = nameVerdict disk size err (name.drop n) (o + n) := by
  have hlen : o + n + (name.drop n).length = o + name.length := by
    rw [List.length_drop]
    omega
  rw [nameVerdict, nameVerdict, agrees_drop hn h hbytes, hlen]

theorem nameVerdict_differs (hn : n ≤ name.length) (h : o + n ≤ pageLimit size)
    (hbytes : storedBytes disk o n ≠ name.take n) :
    nameVerdict disk size err name o = pure false := by
  have hsplit := agrees_split disk hn h
  rw [beq_eq_false_iff_ne.mpr hbytes, Bool.false_and] at hsplit
  rw [nameVerdict, if_pos hsplit]

theorem nameVerdict_outside (h : pageLimit size ≤ o) (hpos : 0 < name.length) :
    nameVerdict disk size err name o = Program.fail (Error.new err.int) := by
  rw [nameVerdict, agrees_outside h, if_neg (by decide), if_neg (by omega)]

end Verdict

/-- A page of the device ends where the device's pages end, or before. -/
theorem add_tail_len_le {size next : Nat} (disk : Disk) (h : next < pageLimit size) :
    next + (disk.tail next).len ≤ pageLimit size := by
  have hpage := page_inside_iff.mpr h
  rw [Disk.tail_len]
  unfold pageLimit PAGE_SIZE at *
  omega

theorem nameEqPage_tail (disk : Disk) (next : Nat) (remaining : List UInt8) :
    let avail := min (disk.tail next).len remaining.length
    nameEqPage remaining ((disk.tail next).sub 0 avail) =
      if storedBytes disk next avail = remaining.take avail then (remaining.drop avail, none)
      else (remaining, some false) := by
  intro avail
  have hlen : min avail remaining.length = avail := Nat.min_eq_left (Nat.min_le_right _ _)
  have hbytes : (((disk.tail next).sub 0 avail).sub 0 avail).bytes = storedBytes disk next avail := by
    simp [Slice.bytes, storedBytes]
  simp only [nameEqPage, Slice.sub_len, hlen, hbytes, ne_eq, ite_not]

section

variable {env : Kernel InodeData} {disk : Disk} {size : Nat} {err : Errno}

theorem nameEqLoop_leadsTo (hd : ReadsWithin env disk size) (hsize : pageLimit size < 2 ^ 63)
    {fuel next : Nat} {remaining : List UInt8} (hfuel : remaining.length ≤ fuel)
    (hnext : next ≤ pageLimit size)
    (hout : agrees disk (pageLimit size) remaining next = true →
      pageLimit size < next + remaining.length → FailsOutside env size err) :
    Program.LeadsTo env
      ((forEachPageLoop (fun remaining page => pure (nameEqPage remaining page)) fuel (next : Int)
        remaining.length remaining).bind fun r => pure (r.2.getD true))
      (nameVerdict disk size err remaining next) := by
  induction fuel generalizing next remaining with
  | zero =>
    obtain rfl : remaining = [] := List.length_eq_zero_iff.mp (by omega)
    rw [nameVerdict_nil hnext]
    exact Program.LeadsTo.refl env _
  | succ fuel ih =>
    rcases Nat.eq_zero_or_pos remaining.length with hnil | hpos
    · obtain rfl : remaining = [] := List.length_eq_zero_iff.mp hnil
      rw [nameVerdict_nil hnext]
      exact Program.LeadsTo.refl env _
    · rw [forEachPageLoop, if_neg (by omega)]
      rcases Nat.lt_or_ge next (pageLimit size) with hin | hin
      · have hpage := add_tail_len_le disk hin
        have hlen : 0 < (disk.tail next).len := by
          rw [Disk.tail_len]
          unfold PAGE_SIZE
          omega
        have hmapped := mappedFolio_within hd (page_inside_iff.mpr hin)
        refine ((hmapped.leadsTo.bind _).bind _).trans ?_
        simp only [Program.bind_eq, Program.done_bind, Program.pure_eq, Int.toNat_natCast,
          nameEqPage_tail]
        generalize hn : min (disk.tail next).len remaining.length = avail
        have hle : avail ≤ remaining.length := by omega
        have havail : next + avail ≤ pageLimit size := by omega
        by_cases hbytes : storedBytes disk next avail = remaining.take avail
        · have hrest : (remaining.length : Int) - avail = ((remaining.drop avail).length : Int) := by
            rw [List.length_drop]
            omega
          have hwrap : (Offset.wrap ((next : Int) + avail)).val = ((next + avail : Nat) : Int) := by
            rw [Offset.wrap_val (by omega) (by omega)]
            push_cast
            rfl
          simp only [hbytes, if_true, hrest, hwrap]
          rw [nameVerdict_drop hle havail hbytes]
          rw [agrees_drop hle havail hbytes] at hout
          refine ih ?_ havail fun hag hlt => hout hag ?_
          · rw [List.length_drop]
            omega
          · rw [List.length_drop] at hlt
            omega
        · simp only [hbytes, if_false]
          rw [nameVerdict_differs hle havail hbytes]
          exact Program.LeadsTo.refl env _
      · have hfails := hout (agrees_outside hin) (by omega)
        have hmapped : Program.Returns env (mappedFolio (next : Int)) (.failed (Error.new err.int)) :=
          mappedFolio_outside fun h => hfails h _ (Nat.not_lt.mp (mt page_inside_iff.mp (by omega)))
        rw [nameVerdict_outside hin hpos]
        exact (hmapped.leadsTo_fail.bind _).bind _

theorem nameEq_leadsTo (hd : ReadsWithin env disk size) (hsize : pageLimit size < 2 ^ 63)
    {name : List UInt8} {offset : UInt64} (hoffset : offset.toNat ≤ pageLimit size)
    (hout : agrees disk (pageLimit size) name offset.toNat = true →
      pageLimit size < offset.toNat + name.length → FailsOutside env size err) :
    Program.LeadsTo env (nameEq name offset) (nameVerdict disk size err name offset.toNat) := by
  have hval : (Offset.ofUInt64 offset).val = (offset.toNat : Int) := Offset.ofUInt64_val (by omega)
  have hloop := nameEqLoop_leadsTo hd hsize (Nat.le_refl name.length) hoffset hout
  unfold nameEq
  rw [hval, forEachPage]
  split
  next hnil =>
    obtain rfl : name = [] := List.length_eq_zero_iff.mp (by omega)
    exact hloop
  next => exact hloop

/-- The bytes at the name of the entry look like `name`, as far as the device goes. -/
def touches (disk : Disk) (size : Nat) (name : List UInt8) (e : DirEntry) : Bool :=
  agrees disk (pageLimit size) name e.nameOffset.toNat

def NameWithin (size : Nat) (name : List UInt8) (e : DirEntry) : Prop :=
  e.nameOffset.toNat + name.length ≤ pageLimit size

instance (size : Nat) (name : List UInt8) (e : DirEntry) : Decidable (NameWithin size name e) :=
  inferInstanceAs (Decidable (_ ≤ _))

/-- What comes of the first entry that looks like the name. -/
def resolve (data : TarFsData) (size : Nat) (err : Errno) (name : List UInt8) :
    Option DirEntry → Prog InodeData (Option (VfsInode InodeData))
  | none => Program.done none
  | some e =>
    if NameWithin size name e then (iget data e.ino).bind fun inode => Program.done (some inode)
    else Program.fail (Error.new err.int)

theorem lookupEntries_leadsTo (hd : ReadsWithin env disk size) (hsize : pageLimit size < 2 ^ 63)
    (data : TarFsData) {name : List UInt8} {es : List DirEntry}
    (hes : ∀ e ∈ es, e.nameOffset.toNat ≤ pageLimit size)
    (hout : ∀ e, es.find? (touches disk size name) = some e → ¬ NameWithin size name e →
      FailsOutside env size err) :
    Program.LeadsTo env (lookupEntries data name es)
      (resolve data size err name (es.find? (touches disk size name))) := by
  induction es with
  | nil => exact Program.LeadsTo.refl env _
  | cons e es ih =>
    rw [List.find?_cons] at hout ⊢
    cases htouch : touches disk size name e with
    | true =>
      simp only [htouch] at hout ⊢
      have hname := nameEq_leadsTo hd hsize (hes e (List.mem_cons_self ..))
        fun _ hlt => hout e rfl (Nat.not_le.mpr hlt)
      refine (hname.bind _).trans ?_
      rw [resolve, nameVerdict, if_neg (by simpa [touches] using htouch)]
      by_cases hin : NameWithin size name e
      · have hle : e.nameOffset.toNat + name.length ≤ pageLimit size := hin
        rw [if_pos hin, if_pos hle]
        exact Program.LeadsTo.refl env _
      · have hle : ¬ e.nameOffset.toNat + name.length ≤ pageLimit size := hin
        rw [if_neg hin, if_neg hle]
        exact Program.LeadsTo.refl env _
    | false =>
      simp only [htouch] at hout ⊢
      have hname : Program.LeadsTo env (nameEq name e.nameOffset)
          (nameVerdict disk size err name e.nameOffset.toNat) :=
        nameEq_leadsTo hd hsize (hes e (List.mem_cons_self ..))
          fun htrue _ => absurd (htouch.symm.trans htrue) (by decide)
      refine (hname.bind _).trans ?_
      have hag : agrees disk (pageLimit size) name e.nameOffset.toNat = false := htouch
      rw [nameVerdict, if_pos hag]
      exact ih (fun e' he' => hes e' (List.mem_cons_of_mem _ he')) hout

/-- The `n` entries of a directory table at `o`. -/
def tableEntries (disk : Disk) (o n : Nat) : List DirEntry :=
  (List.range n).map fun i => DirEntry.decode (disk.tail (o + i * 32))

theorem length_tableEntries (disk : Disk) (o n : Nat) : (tableEntries disk o n).length = n := by
  rw [tableEntries, List.length_map, List.length_range]

theorem tableEntries_append (disk : Disk) (o m n : Nat) :
    tableEntries disk o (m + n) = tableEntries disk o m ++ tableEntries disk (o + m * 32) n := by
  simp only [tableEntries, List.range_add, List.map_append, List.map_map]
  congr 2
  funext i
  simp only [Function.comp]
  congr 2
  ring

theorem DirEntry.decode_congr {d d' : Slice} (h : ∀ j, d.byte j = d'.byte j) :
    DirEntry.decode d = DirEntry.decode d' := by
  simp only [DirEntry.decode, Slice.le64, Slice.le32, Slice.le16, h]

theorem fromBytesToSlice_tail (disk : Disk) {next n : Nat} (hnext : next % 32 = 0) :
    DirEntry.fromBytesToSlice ((disk.tail next).sub 0 (n * 32)) =
      some (tableEntries disk next n) := by
  have hbase : (disk.tail next).base % 8 = 0 := by
    rw [Disk.tail_base]
    unfold PAGE_SIZE
    omega
  have hslices := Slice.fromBytesToSlice_eq_some 32 8
    (s := (disk.tail next).sub 0 (n * 32)) (by decide) (by simp) (by simpa using hbase)
  rw [DirEntry.fromBytesToSlice, hslices]
  simp only [Option.map_some, List.map_map, Slice.sub_len, Nat.mul_div_cancel n (by decide : 0 < 32)]
  refine congrArg some (List.map_congr_left fun i _ => DirEntry.decode_congr fun j => ?_)
  simp only [Slice.sub_byte, Disk.tail_byte, Nat.zero_add, Nat.add_assoc]

def findPage (data : TarFsData) (name : List UInt8) (_ : Unit) (page : Slice) :
    Prog InodeData (Unit × Option (VfsInode InodeData)) := do
  let entries ← Program.ofOption Error.EIO (DirEntry.fromBytesToSlice page)
  let found ← lookupEntries data name entries
  pure ((), found)

/-- `TarFs::lookup` up to the inode it passes to `splice_alias`. -/
def findInode (data : TarFsData) (parent : VfsInode InodeData) (name : List UInt8) :
    Prog InodeData (Option (VfsInode InodeData)) :=
  (forEachPage (Offset.ofUInt64 parent.data.offset).val parent.size.val (findPage data name) ()).bind
    fun r => Program.done r.2

theorem lookup_eq (data : TarFsData) (parent : VfsInode InodeData) (dentry : Dentry) :
    lookup data parent dentry = (findInode data parent dentry.name).bind (spliceAlias dentry) := by
  rw [findInode, Program.bind_assoc]
  rfl

/-- A piece of an aligned table holds whole entries. -/
theorem entries_of_piece {o k m n : Nat} (ho : o % 32 = 0) (hn : k + m = n * 32)
    (full : m ≠ 0 → o % PAGE_SIZE + k = PAGE_SIZE) :
    ∃ c rest, k = c * 32 ∧ m = rest * 32 ∧ n = c + rest := by
  have hk : k % 32 = 0 := by
    by_cases hm : m = 0
    · omega
    · have hfull := full hm
      unfold PAGE_SIZE at hfull
      omega
  exact ⟨k / 32, n - k / 32, by omega, by omega, by omega⟩

theorem visitFind_leadsTo (hd : ReadsWithin env disk size) (hsize : pageLimit size < 2 ^ 63)
    (data : TarFsData) {name : List UInt8} {next len n : Nat} {ps : List (Nat × Nat)}
    (htiles : Tiles PAGE_SIZE next len ps) (hlen : len = n * 32) (hnext : next % 32 = 0)
    (hend : next + n * 32 ≤ size)
    (hes : ∀ e ∈ tableEntries disk next n, e.nameOffset.toNat ≤ pageLimit size)
    (hout : ∀ e, (tableEntries disk next n).find? (touches disk size name) = some e →
      ¬ NameWithin size name e → FailsOutside env size err) :
    Program.LeadsTo env
      ((visit (fun s p mapped => findPage data name s (mapped.sub 0 p.2)) ps ()).bind
        fun r => Program.done r.2)
      (resolve data size err name
        ((tableEntries disk next n).find? (touches disk size name))) := by
  induction htiles generalizing n with
  | nil next =>
    obtain rfl : n = 0 := by omega
    exact Program.LeadsTo.refl env _
  | @cons next k m ps pos inside full rest ih =>
    obtain ⟨c, after, rfl, rfl, rfl⟩ := entries_of_piece hnext hlen full
    have hle := le_pageLimit size
    have hmapped := mappedFolio_within hd (page_inside_iff.mpr (by omega : next < pageLimit size))
    rw [visit]
    refine ((hmapped.leadsTo.bind _).bind _).trans ?_
    simp only [Program.bind_eq, Program.done_bind, findPage, fromBytesToSlice_tail disk hnext,
      Program.ofOption_some, Program.pure_eq]
    rw [tableEntries_append] at hes hout ⊢
    rw [List.find?_append] at hout ⊢
    have hentries : Program.LeadsTo env (lookupEntries data name (tableEntries disk next c))
        (resolve data size err name
          ((tableEntries disk next c).find? (touches disk size name))) :=
      lookupEntries_leadsTo hd hsize data (fun e he => hes e (List.mem_append_left _ he))
        fun e he => hout e (by rw [he, Option.some_or])
    refine (((hentries.bind _).bind _).bind _).trans ?_
    cases hfind : (tableEntries disk next c).find? (touches disk size name) with
    | some e =>
      rw [Option.some_or, resolve]
      split
      next =>
        simp only [Program.bind_assoc, Program.done_bind]
        exact Program.LeadsTo.refl env _
      next => exact Program.LeadsTo.refl env _
    | none =>
      rw [hfind] at hout
      simp only [resolve, Program.done_bind, Option.none_or] at hout ⊢
      exact ih rfl (by omega) (by omega) (fun e he => hes e (List.mem_append_right _ he)) hout

end

/-- A directory whose table and names lie inside the device. -/
structure Directory (data : TarFsData) (disk : Disk) where
  inode : VfsInode InodeData
  count : Nat
  size_eq : inode.size.val = ((count * 32 : Nat) : Int)
  offset_mod : inode.data.offset.toNat % 32 = 0
  table_le : inode.data.offset.toNat + count * 32 ≤ data.dataSize.toNat
  names : ∀ e ∈ tableEntries disk inode.data.offset.toNat count, e.nameLen.toNat ≤ 255 ∧
    e.nameOffset.toNat + e.nameLen.toNat ≤ data.dataSize.toNat

namespace Directory

variable {data : TarFsData} {disk : Disk} (dir : Directory data disk)

def entries : List DirEntry := tableEntries disk dir.inode.data.offset.toNat dir.count

def storedName (disk : Disk) (e : DirEntry) : List UInt8 :=
  storedBytes disk e.nameOffset.toNat e.nameLen.toNat

/-- The first entry stored under exactly this name. -/
def firstStored (name : List UInt8) : Option DirEntry :=
  dir.entries.find? fun e => storedName disk e == name

/-- The first entry whose bytes on the device begin with the name. -/
def firstTouched (name : List UInt8) : Option DirEntry :=
  dir.entries.find? (touches disk data.dataSize.toNat name)

theorem findInode_leadsTo {env : Kernel InodeData} (err : Errno) (name : List UInt8)
    (hd : ReadsWithin env disk data.dataSize.toNat) (hdev : pageLimit data.dataSize.toNat < 2 ^ 63)
    (hout : ∀ e, dir.firstTouched name = some e → ¬ NameWithin data.dataSize.toNat name e →
      FailsOutside env data.dataSize.toNat err) :
    Program.LeadsTo env (findInode data dir.inode name)
      (resolve data data.dataSize.toNat err name (dir.firstTouched name)) := by
  have hle := le_pageLimit data.dataSize.toNat
  have htable := dir.table_le
  have hval : (Offset.ofUInt64 dir.inode.data.offset).val = (dir.inode.data.offset.toNat : Int) :=
    Offset.ofUInt64_val (by omega)
  have hnames : ∀ e ∈ tableEntries disk dir.inode.data.offset.toNat dir.count,
      e.nameOffset.toNat ≤ pageLimit data.dataSize.toNat := by
    intro e he
    have hname := (dir.names e he).2
    omega
  rw [findInode, hval, dir.size_eq, forEachPage_eq_visit _ (by omega)]
  exact visitFind_leadsTo hd hdev data (pieces_tiles (by decide) _ _) rfl dir.offset_mod dir.table_le
    hnames hout

theorem touches_of_stored {name : List UInt8} {e : DirEntry} (he : e ∈ dir.entries)
    (hname : storedName disk e = name) :
    touches disk data.dataSize.toNat name e = true ∧ NameWithin data.dataSize.toNat name e := by
  have hle := le_pageLimit data.dataSize.toNat
  have hin := (dir.names e he).2
  have hlen : name.length = e.nameLen.toNat := by
    rw [← hname, storedName, storedBytes, List.length_map, List.length_range]
  have hwithin : e.nameOffset.toNat + name.length ≤ pageLimit data.dataSize.toNat := by omega
  refine ⟨?_, hwithin⟩
  rw [touches, agrees_inside hwithin, hlen, beq_iff_eq]
  exact hname

theorem firstStored_eq_none {name : List UInt8} (h : dir.firstTouched name = none) :
    dir.firstStored name = none := by
  rw [firstTouched, List.find?_eq_none] at h
  rw [firstStored, List.find?_eq_none]
  intro e he hname
  exact h e he (dir.touches_of_stored he (beq_iff_eq.mp hname)).1

end Directory

/-- `iget_locked` gives an inode of the number it is asked for. -/
structure NamesInodes (env : Kernel InodeData) : Prop where
  cached : ∀ {h ino inode}, env h (.igetLocked ino) = .cached inode → inode.ino = ino
  fresh : ∀ {h ino i sb}, env h (.igetLocked ino) = .fresh i sb → i = ino

theorem decodeInode_ino {n : NewINode} {mapped : Slice} {inode : VfsInode InodeData}
    (h : decodeInode n mapped = .ok inode) : inode.ino = n.ino := by
  unfold decodeInode at h
  split at h
  next => cases h
  next idata _ =>
    split at h
    next => cases h
    next typ _ =>
      cases h
      rw [NewINode.init_ino]

theorem iget_ino {data : TarFsData} {env : Kernel InodeData} (hnames : NamesInodes env)
    {ino : UInt64} {h : History InodeData} {inode : VfsInode InodeData}
    (hdone : ((iget data ino).run env h).1 = .done inode) : inode.ino = ino := by
  unfold iget at hdone
  split at hdone
  next => cases hdone
  next =>
    cases hl : env h (.igetLocked ino) with
    | null =>
      rw [igetWith_run_null hl] at hdone
      cases hdone
    | cached aref =>
      rw [igetWith_run_cached hl] at hdone
      cases hdone
      exact hnames.cached hl
    | fresh i sb =>
      rw [igetWith_run_fresh hl] at hdone
      obtain ⟨mapped, _, _, hdecode⟩ := Program.run_bind_done (Program.run_onFail_done hdone)
      cases hd : decodeInode (.new i sb) mapped with
      | error e =>
        rw [hd] at hdecode
        cases hdecode
      | ok loaded =>
        rw [hd] at hdecode
        cases hdecode
        exact (decodeInode_ino hd).trans (hnames.fresh hl)

/-- `lookup` passes the inode numbered `ino` to `splice_alias`, or no inode at all. -/
def Binds (env : Kernel InodeData) (data : TarFsData) (parent : VfsInode InodeData)
    (name : List UInt8) (ino : Option UInt64) : Prop :=
  ∀ h, ∃ inode, ((findInode data parent name).run env h).1 = .done inode ∧
    inode.map (·.ino) = ino

/-- A kernel under which a lookup can be expected to work: pages inside the device can be read,
and the inodes of the directory be loaded. -/
structure Serves (env : Kernel InodeData) {data : TarFsData} {disk : Disk}
    (dir : Directory data disk) : Prop where
  reads : ReadsWithin env disk data.dataSize.toNat
  names : NamesInodes env
  loads : ∀ e ∈ dir.entries, ∀ h, ∃ inode, ((iget data e.ino).run env h).1 = .done inode

theorem resolve_run {env : Kernel InodeData} {data : TarFsData} {disk : Disk}
    {dir : Directory data disk} (hs : Serves env dir) {err : Errno} {name : List UInt8}
    {e : DirEntry} (he : dir.firstTouched name = some e)
    (hin : NameWithin data.dataSize.toNat name e) (h : History InodeData) :
    ∃ inode, ((resolve data data.dataSize.toNat err name (some e)).run env h).1 = .done (some inode) ∧
      inode.ino = e.ino := by
  obtain ⟨inode, hinode⟩ := hs.loads e (List.mem_of_find?_eq_some he) h
  refine ⟨inode, ?_, iget_ino hs.names hinode⟩
  obtain ⟨h', hrun⟩ : ∃ h', (iget data e.ino).run env h = (.done inode, h') :=
    ⟨_, Prod.ext hinode rfl⟩
  rw [resolve, if_pos hin, Program.run_bind, hrun]
  rfl

def plainInode (ino : UInt64) : VfsInode InodeData :=
  (NewINode.new ino 0).init (inodeParams ⟨0o100644, 0, 0, 0, 0, 0, 0, 0⟩ .reg)

/-- Nothing can be read past the last page of the device, and every inode is cached. -/
def edgeKernel (disk : Disk) (size : Nat) (sectors : UInt64) : Kernel InodeData :=
  steadyKernel
    (fun index => if index * PAGE_SIZE < size then .folio (disk.page index)
      else .failed ⟨6, by decide, by decide⟩)
    (fun ino => .cached (plainInode ino)) sectors 0 true

theorem edgeKernel_serves {data : TarFsData} {disk : Disk} (dir : Directory data disk)
    (hino : ∀ e ∈ dir.entries, e.ino ≠ 0 ∧ e.ino ≤ data.inodeCount) (sectors : UInt64) :
    Serves (edgeKernel disk data.dataSize.toNat sectors) dir where
  reads := by
    intro h index hin
    simp only [edgeKernel, steadyKernel, hin, if_true]
  names := by
    refine ⟨fun {h ino inode} hc => ?_, fun {h ino i sb} hf => ?_⟩
    · cases hc
      rfl
    · cases hf
  loads := by
    intro e he h
    obtain ⟨hne, hle⟩ := hino e he
    have hvalid : ¬ (e.ino = 0 ∨ e.ino > data.inodeCount) := by
      rw [not_or]
      exact ⟨hne, UInt64.not_lt.mpr hle⟩
    refine ⟨plainInode e.ino, ?_⟩
    rw [iget, if_neg hvalid]
    rfl

/-- `lookup` binds what is stored under the name exactly when the first entry whose bytes begin with
the name lies inside the device and carries the inode of the first entry of just that name; the
length of a stored name is never compared. -/
theorem lookup_binds_stored_name_iff {data : TarFsData} {disk : Disk}
    (hdev : pageLimit data.dataSize.toNat < 2 ^ 63) (dir : Directory data disk)
    (hino : ∀ e ∈ dir.entries, e.ino ≠ 0 ∧ e.ino ≤ data.inodeCount) (dentry : Dentry) :
    (∀ env, Serves env dir → Binds env data dir.inode dentry.name
      ((dir.firstStored dentry.name).map (·.ino))) ↔
      ∀ e, dir.firstTouched dentry.name = some e →
        NameWithin data.dataSize.toNat dentry.name e ∧
          (dir.firstStored dentry.name).map (·.ino) = some e.ino := by
  constructor
  · intro hbinds e he
    have hs := edgeKernel_serves dir hino 8
    have hfails : FailsOutside (edgeKernel disk data.dataSize.toNat 8) data.dataSize.toNat
        ⟨6, by decide, by decide⟩ := by
      intro h index hout
      simp only [edgeKernel, steadyKernel, Nat.not_lt.mpr hout, if_false]
    have hleads := dir.findInode_leadsTo _ dentry.name hs.reads hdev fun _ _ _ => hfails
    obtain ⟨inode, hdone, hexpected⟩ := hbinds _ hs []
    obtain ⟨h', hrun⟩ := hleads []
    rw [hrun, he] at hdone
    by_cases hin : NameWithin data.dataSize.toNat dentry.name e
    · obtain ⟨loaded, hloaded, hloadedIno⟩ := resolve_run hs he hin h'
      cases hloaded.symm.trans hdone
      exact ⟨hin, by rw [← hexpected, Option.map_some, hloadedIno]⟩
    · rw [resolve, if_neg hin] at hdone
      cases hdone
  · intro hcond env hs h
    have hleads := dir.findInode_leadsTo ⟨6, by decide, by decide⟩ dentry.name hs.reads hdev
      fun e he hout => absurd (hcond e he).1 hout
    obtain ⟨h', hrun⟩ := hleads h
    rw [hrun]
    cases he : dir.firstTouched dentry.name with
    | none =>
      rw [dir.firstStored_eq_none he]
      exact ⟨none, rfl, rfl⟩
    | some e =>
      obtain ⟨hin, hexpected⟩ := hcond e he
      obtain ⟨inode, hdone, hinode⟩ := resolve_run hs he hin h'
      exact ⟨some inode, hdone, by rw [hexpected, Option.map_some, hinode]⟩

/-- Eight sectors: the entries `ab` of inode 2 and `a` of inode 3 at 1024, their names at 2048, and
the header in the last sector. -/
def tarDisk : Disk
  | 1024 => 2
  | 1033 => 8
  | 1040 => 2
  | 1048 => 8
  | 1056 => 3
  | 1064 => 2
  | 1065 => 8
  | 1072 => 1
  | 1080 => 8
  | 2048 => 97
  | 2049 => 98
  | 2050 => 97
  | 3592 => 3
  | _ => 0

def tarData : TarFsData where
  dataSize := 4096
  inodeTableOffset := 0
  inodeCount := 3
  table_lt := by decide
  table_end_le := by decide

theorem tarDisk_entries : tableEntries tarDisk 1024 2 = [⟨2, 2048, 2, 8⟩, ⟨3, 2050, 1, 8⟩] := by
  decide +kernel

def tarDir : Directory tarData tarDisk where
  inode := (NewINode.new 1 0).init (inodeParams ⟨0o040755, 0, 0, 0, 0, 0, 64, 1024⟩ .dir)
  count := 2
  size_eq := by decide +kernel
  offset_mod := by decide
  table_le := by decide
  names := by
    have hnames : ∀ e ∈ tableEntries tarDisk 1024 2, e.nameLen.toNat ≤ 255 ∧
        e.nameOffset.toNat + e.nameLen.toNat ≤ tarData.dataSize.toNat := by
      rw [tarDisk_entries]
      decide
    exact hnames

theorem tarDir_entries : tarDir.entries = [⟨2, 2048, 2, 8⟩, ⟨3, 2050, 1, 8⟩] := tarDisk_entries

theorem tarDir_inos : ∀ e ∈ tarDir.entries, e.ino ≠ 0 ∧ e.ino ≤ tarData.inodeCount := by
  rw [tarDir_entries]
  decide

theorem lookup_binds_ab :
    Serves (edgeKernel tarDisk 4096 8) tarDir ∧
      Binds (edgeKernel tarDisk 4096 8) tarData tarDir.inode [97, 98]
        ((tarDir.firstStored [97, 98]).map (·.ino)) := by
  have htouched : tarDir.firstTouched [97, 98] = some ⟨2, 2048, 2, 8⟩ := by decide +kernel
  have hstored : tarDir.firstStored [97, 98] = some ⟨2, 2048, 2, 8⟩ := by decide +kernel
  have hs := edgeKernel_serves tarDir tarDir_inos 8
  refine ⟨hs, (lookup_binds_stored_name_iff (by decide) tarDir tarDir_inos
    ⟨0, [97, 98], by decide⟩).mpr (fun e he => ?_) (edgeKernel tarDisk 4096 8) hs⟩
  cases htouched.symm.trans he
  exact ⟨by decide, by rw [hstored]; rfl⟩

/-- Looking up `a` finds the entry `ab`, whose bytes begin with `a`, and binds inode 2. -/
theorem lookup_binds_longer_name :
    (fillSuper.run (edgeKernel tarDisk 4096 8) []).1 = .done tarData ∧
      Serves (edgeKernel tarDisk 4096 8) tarDir ∧
      (tarDir.firstStored [97]).map (·.ino) = some 3 ∧
      Binds (edgeKernel tarDisk 4096 8) tarData tarDir.inode [97] (some 2) ∧
      ¬ Binds (edgeKernel tarDisk 4096 8) tarData tarDir.inode [97]
        ((tarDir.firstStored [97]).map (·.ino)) := by
  have hstored : (tarDir.firstStored [97]).map (·.ino) = some 3 := by decide +kernel
  have htouched : tarDir.firstTouched [97] = some ⟨2, 2048, 2, 8⟩ := by decide +kernel
  have hwithin : NameWithin 4096 [97] ⟨2, 2048, 2, 8⟩ := by decide
  have hs := edgeKernel_serves tarDir tarDir_inos 8
  have hbound : Binds (edgeKernel tarDisk 4096 8) tarData tarDir.inode [97] (some 2) := by
    intro h
    obtain ⟨h', hrun⟩ := tarDir.findInode_leadsTo ⟨6, by decide, by decide⟩ [97] hs.reads
      (by decide) (fun e he hout => by
        cases htouched.symm.trans he
        exact absurd hwithin hout) h
    obtain ⟨inode, hdone, hino⟩ := resolve_run hs htouched hwithin h'
    rw [htouched] at hrun
    exact ⟨some inode, (congrArg Prod.fst hrun).trans hdone, by rw [Option.map_some, hino]⟩
  refine ⟨by decide +kernel, hs, hstored, hbound, fun hbinds => ?_⟩
  obtain ⟨inode, hinode, hino⟩ := hbound []
  obtain ⟨inode', hinode', hino'⟩ := hbinds []
  cases hinode.symm.trans hinode'
  rw [hstored, hino] at hino'
  cases hino'

end TarFs

end Rko
