import Rko.MountedFs
import Rko.TarfsFile
import Rko.TarfsListing
import Rko.TarfsRecords

namespace Rko.TarFs

open CallProgram

def driver (data : TarFsData) : FsDriver InodeData where
  lookup := lookup data
  find := findInode data
  readDir := readDir data
  readFolio := readFolio
  lookup_eq := lookup_eq data

section Image

variable (data : TarFsData) (disk : Disk) (sb : Ptr)

/-- The inode of a number, as its record on the device has it. -/
def storedInode (ino : UInt64) : Option (VfsInode InodeData) :=
  if ino = 0 ∨ ino > data.inodeCount then none
  else (decodeInode (.new ino sb) (disk.tail (recordAddress data ino))).toOption

variable {data disk sb}

theorem storedInode_eq_some {ino : UInt64} {inode : VfsInode InodeData}
    (h : storedInode data disk sb ino = some inode) :
    (ino ≠ 0 ∧ ino ≤ data.inodeCount) ∧
      decodeInode (.new ino sb) (disk.tail (recordAddress data ino)) = .ok inode := by
  unfold storedInode at h
  split at h
  next => cases h
  next hvalid =>
    rw [not_or] at hvalid
    refine ⟨⟨hvalid.1, UInt64.not_lt.mp hvalid.2⟩, ?_⟩
    cases hdecode : decodeInode (.new ino sb) (disk.tail (recordAddress data ino)) with
    | error e =>
      rw [hdecode] at h
      cases h
    | ok found =>
      rw [hdecode] at h
      exact congrArg Except.ok (Option.some.inj h)

theorem storedInode_ino {ino : UInt64} {inode : VfsInode InodeData}
    (h : storedInode data disk sb ino = some inode) : inode.ino = ino ∧ inode.sb = sb := by
  obtain ⟨-, hdecode⟩ := storedInode_eq_some h
  refine ⟨decodeInode_ino hdecode, ?_⟩
  unfold decodeInode at hdecode
  split at hdecode
  next => cases hdecode
  next =>
    split at hdecode
    next => cases hdecode
    next =>
      cases hdecode
      rw [NewINode.init_sb]
      rfl

/-- `iget` gives the stored inode, from the cache or from the device. -/
theorem iget_stored {reads : Nat → FolioResult} {cache : InodeCache InodeData}
    {emits : History InodeData → Bool}
    (hd : ReadsWithin (mountKernel reads sb cache emits) disk data.dataSize.toNat)
    (hdev : data.dataSize.toNat < 2 ^ 63) (hcache : cache.Coherent (storedInode data disk sb))
    {ino : UInt64} {inode : VfsInode InodeData} (h : storedInode data disk sb ino = some inode) :
    Program.Returns (mountKernel reads sb cache emits) (iget data ino) (.done inode) := by
  obtain ⟨⟨hne, hle⟩, hdecode⟩ := storedInode_eq_some h
  have hvalid : ¬ (ino = 0 ∨ ino > data.inodeCount) := by
    rw [not_or]
    exact ⟨hne, UInt64.not_lt.mpr hle⟩
  have hrecord := recordAddress_le hne hle
  have hinside : recordAddress data ino / PAGE_SIZE * PAGE_SIZE < data.dataSize.toNat := by
    have hdiv := Nat.div_mul_le_self (recordAddress data ino) PAGE_SIZE
    omega
  rw [iget, if_neg hvalid]
  refine igetWith_returns hcache h fun history => ?_
  rw [loadInode_outcome (inodeOffset_eq hne hle (by omega)) history (hd history _ hinside) _,
    disk.page_tail, hdecode]
  rfl

/-- The entries of the table at a directory's offset. -/
def entriesOf (disk : Disk) (inode : VfsInode InodeData) : List DirEntry :=
  tableEntries disk inode.data.offset.toNat (inode.size.val.toNat / 32)

def listingOf (disk : Disk) (inode : VfsInode InodeData) : List Listed :=
  (entriesOf disk inode).map (DirEntry.listed disk)

/-- A device that holds a tree: the tables and names of directories lie on it, their entries name
inodes that can be loaded, no stored name begins the bytes of another one before it, and files lie
on the device. -/
structure TarImage (data : TarFsData) (disk : Disk) (sb : Ptr) : Prop where
  device : pageLimit data.dataSize.toNat < 2 ^ 63
  directory : ∀ {ino inode}, storedInode data disk sb ino = some inode → inode.fop = .dir →
    ∃ dir : Directory data disk, dir.inode = inode ∧
      (∀ e ∈ dir.entries, ∃ child, storedInode data disk sb e.ino = some child) ∧
      ∀ e ∈ dir.entries, dir.firstTouched (Directory.storedName disk e) = some e
  file : ∀ {ino inode}, storedInode data disk sb ino = some inode → inode.fop = .regular →
    0 ≤ inode.size.val ∧ inode.data.offset.toNat + inode.size.val.toNat ≤ data.dataSize.toNat

/-- The tree on the device. A name may be asked for when it is stored in the directory, or when it
differs from what is stored there before it ends. -/
def tree (data : TarFsData) (disk : Disk) (sb : Ptr) : FsTree InodeData where
  root := 1
  stored := storedInode data disk sb
  Names ino name := ∃ inode, storedInode data disk sb ino = some inode ∧ inode.fop = .dir ∧
    ((∃ e ∈ entriesOf disk inode, Directory.storedName disk e = name) ∨
      ∀ e ∈ entriesOf disk inode, touches disk data.dataSize.toNat name e = false)
  child ino name := (storedInode data disk sb ino).bind fun inode =>
    ((entriesOf disk inode).find? fun e => Directory.storedName disk e == name).map (·.ino)
  Lists ino pos := ∃ inode, storedInode data disk sb ino = some inode ∧ inode.fop = .dir ∧
    ∃ k : Nat, pos = ((k * 32 : Nat) : Int)
  listed ino pos emits pos' entries := ∃ inode, storedInode data disk sb ino = some inode ∧
    ∃ k : Nat, pos = ((k * 32 : Nat) : Int) ∧ pos' = (((k + entries.length) * 32 : Nat) : Int) ∧
      entries <+: (listingOf disk inode).drop k ∧
      ((∀ h, emits h = true) → entries = (listingOf disk inode).drop k)
  Reads ino folio := ∃ inode, storedInode data disk sb ino = some inode ∧ inode.fop = .regular ∧
    0 ≤ folio.pos ∧ folio.pos < 2 ^ 63 ∧ folio.size < 2 ^ 64
  folio ino folio folio' := ∃ inode, storedInode data disk sb ino = some inode ∧
    folio'.size = folio.size ∧
    ∀ i < folio.size, folio'.byte i = contentByte disk inode (folio.pos.toNat + i)

theorem tree_child {ino : UInt64} {inode : VfsInode InodeData}
    (hinode : storedInode data disk sb ino = some inode) (name : List UInt8) :
    (tree data disk sb).child ino name =
      ((entriesOf disk inode).find? fun e => Directory.storedName disk e == name).map (·.ino) := by
  simp only [tree, hinode, Option.bind_some]

/-- The device can be read, and nothing behind its last page. -/
def deviceReads (disk : Disk) (size index : Nat) : FolioResult :=
  if index * PAGE_SIZE < size then .folio (disk.page index) else .null

def imageMount (data : TarFsData) (disk : Disk) (sb : Ptr) : FsMount InodeData :=
  ⟨driver data, deviceReads disk data.dataSize.toNat, sb⟩

theorem mountKernel_reads (disk : Disk) (size : Nat) (sb : Ptr) (cache : InodeCache InodeData)
    (emits : History InodeData → Bool) :
    ReadsWithin (mountKernel (deviceReads disk size) sb cache emits) disk size := by
  intro h index hin
  show deviceReads disk size index = _
  rw [deviceReads, if_pos hin]

theorem mountKernel_readsPages (disk : Disk) (size : Nat) (sb : Ptr) (cache : InodeCache InodeData)
    (emits : History InodeData → Bool) :
    ReadsPages (mountKernel (deviceReads disk size) sb cache emits) disk := by
  intro h index f hf
  have hread : deviceReads disk size index = .folio f := hf
  rw [deviceReads] at hread
  split at hread
  next =>
    cases hread
    exact ⟨rfl, Nat.one_pos, disk.folio_upToDate index 1⟩
  next => cases hread

theorem entriesOf_directory (dir : Directory data disk) :
    entriesOf disk dir.inode = dir.entries := by
  have hcount : dir.inode.size.val.toNat / 32 = dir.count := by
    rw [dir.size_eq]
    omega
  rw [entriesOf, hcount]
  rfl

/-- Where each stored name leads to its own entry, the first entry of a name is the one found. -/
theorem firstStored_eq {dir : Directory data disk} {name : List UInt8} {e : DirEntry}
    (he : dir.firstTouched name = some e) (hname : Directory.storedName disk e = name) :
    dir.firstStored name = some e := by
  obtain ⟨-, as, bs, happend, hbefore⟩ := List.find?_eq_some_iff_append.mp he
  have hmem : ∀ a ∈ as, a ∈ dir.entries := by
    intro a ha
    rw [happend]
    exact List.mem_append_left _ ha
  refine List.find?_eq_some_iff_append.mpr ⟨beq_iff_eq.mpr hname, as, bs, happend, fun a ha => ?_⟩
  have hstored : ¬ Directory.storedName disk a = name := by
    intro heq
    have htouch := (dir.touches_of_stored (hmem a ha) heq).1
    have hnot := hbefore a ha
    rw [htouch] at hnot
    cases hnot
  simpa using hstored

theorem findInode_stored (himage : TarImage data disk sb) {cache : InodeCache InodeData}
    (hcache : cache.Coherent (storedInode data disk sb)) {ino : UInt64}
    {parent : VfsInode InodeData} {name : List UInt8}
    (hparent : storedInode data disk sb ino = some parent)
    (hname : (tree data disk sb).Names ino name) :
    ∃ found, Program.Returns ((imageMount data disk sb).kernel cache) (findInode data parent name)
        (.done found) ∧
      found.map (·.ino) = (tree data disk sb).child ino name ∧
      ∀ child, found = some child → storedInode data disk sb child.ino = some child := by
  have hle := le_pageLimit data.dataSize.toNat
  have hdevice := himage.device
  obtain ⟨inode, hinode, hdir, hknown⟩ := hname
  cases hparent.symm.trans hinode
  obtain ⟨dir, rfl, hchildren, hfirst⟩ := himage.directory hparent hdir
  have hchild : (tree data disk sb).child ino name = (dir.firstStored name).map (·.ino) := by
    rw [tree_child hparent, entriesOf_directory]
    rfl
  have hd := mountKernel_reads disk data.dataSize.toNat sb cache fun _ => true
  rw [entriesOf_directory] at hknown
  rw [hchild]
  rcases hknown with ⟨e, he, rfl⟩ | hnone
  · have htouched := hfirst e he
    obtain ⟨child, hload⟩ := hchildren e he
    obtain ⟨-, hin⟩ := dir.touches_of_stored he rfl
    have hleads := dir.findInode_leadsTo ⟨5, by decide, by decide⟩ (Directory.storedName disk e) hd
      himage.device fun e' he' hout => by
        cases htouched.symm.trans he'
        exact absurd hin hout
    rw [htouched, resolve, if_pos hin] at hleads
    have higet : Program.Returns (mountKernel (deviceReads disk data.dataSize.toNat) sb cache
        fun _ => true) (iget data e.ino) (.done child) := iget_stored hd (by omega) hcache hload
    have hdone : Program.Returns (mountKernel (deviceReads disk data.dataSize.toNat) sb cache
        fun _ => true) ((iget data e.ino).bind fun inode => Program.done (some inode))
        (.done (some child)) := higet.bind (Program.Returns.done _ _)
    have hino := (storedInode_ino hload).1
    refine ⟨some child, fun h => ?_, ?_, ?_⟩
    · obtain ⟨h', hrun⟩ := hleads h
      exact (congrArg Prod.fst hrun).trans (hdone h')
    · rw [firstStored_eq htouched rfl, Option.map_some, Option.map_some, hino]
    · intro c hc
      cases hc
      rw [hino]
      exact hload
  · have htouched : dir.firstTouched name = none :=
      List.find?_eq_none.mpr fun e he => by
        rw [hnone e he]
        decide
    have hleads := dir.findInode_leadsTo ⟨5, by decide, by decide⟩ name hd himage.device
      fun e' he' _ => by
        rw [htouched] at he'
        cases he'
    rw [htouched, resolve] at hleads
    refine ⟨none, fun h => ?_, ?_, ?_⟩
    · obtain ⟨h', hrun⟩ := hleads h
      exact congrArg Prod.fst hrun
    · rw [dir.firstStored_eq_none htouched]
      rfl
    · intro c hc
      cases hc

theorem listingOf_directory (dir : Directory data disk) :
    listingOf disk dir.inode = dir.table.listed := by
  rw [listingOf, entriesOf_directory]
  rfl

/-- A call of `read_dir` lists the entries from its position on, up to the first that is refused. -/
theorem readDir_listed (himage : TarImage data disk sb) {ino : UInt64}
    {inode : VfsInode InodeData} (hinode : storedInode data disk sb ino = some inode) {pos : Int}
    (hlists : (tree data disk sb).Lists ino pos) (cache : InodeCache InodeData)
    (emits : History InodeData → Bool) :
    ∃ pos' h, (readDir data inode pos).run
        (mountKernel (deviceReads disk data.dataSize.toNat) sb cache emits) [] = (.done pos', h) ∧
      (tree data disk sb).listed ino pos emits pos' (accepted h) := by
  have hle := le_pageLimit data.dataSize.toNat
  have hdevice := himage.device
  obtain ⟨other, hother, hdir, k, rfl⟩ := hlists
  cases hinode.symm.trans hother
  obtain ⟨dir, rfl, -, -⟩ := himage.directory hinode hdir
  have hd := mountKernel_reads disk data.dataSize.toNat sb cache emits
  have hlen : dir.table.listed.length = dir.count := by
    rw [Table.listed, List.length_map, length_tableEntries]
    rfl
  rcases Nat.lt_or_ge k dir.count with hlt | hge
  · obtain ⟨j, h, hj, hall, hrun, haccepted⟩ := readDir_run dir.table (by omega) hd hlt []
    have htaken : accepted h = (dir.table.listed.drop k).take j := by
      rw [haccepted, dir.table.drop_listed (show k ≤ dir.table.count from hlt.le), ← List.map_take]
      rfl
    have hj' : j ≤ dir.count - k := Nat.le_sub_of_add_le' hj
    have hcount : (accepted h).length = j := by
      rw [htaken, List.length_take, List.length_drop, hlen]
      omega
    refine ⟨_, h, hrun, dir.inode, hinode, k, rfl, by rw [hcount], ?_, fun htakes => ?_⟩
    · rw [listingOf_directory, htaken]
      exact List.take_prefix _ _
    · have hend : k + j = dir.count := hall fun h _ _ _ _ => htakes h
      rw [listingOf_directory, htaken]
      refine List.take_of_length_le ?_
      rw [List.length_drop, hlen]
      omega
  · have hsize := dir.size_eq
    have hend := readDir_at_end dir.table (Nat.mul_mod_left k 32)
      (show dir.inode.size.val ≤ ((k * 32 : Nat) : Int) by omega)
    have hdrop : (listingOf disk dir.inode).drop k = [] := by
      rw [listingOf_directory]
      exact List.drop_of_length_le (by omega)
    refine ⟨((k * 32 : Nat) : Int), [], ?_, dir.inode, hinode, k, rfl, rfl, ?_, fun _ => ?_⟩
    · exact congrArg (Program.run _ []) hend
    · exact List.nil_prefix
    · rw [hdrop]
      rfl

theorem imageMount_shows (himage : TarImage data disk sb) :
    (imageMount data disk sb).Shows (tree data disk sb) where
  stored_ino := fun h => storedInode_ino h
  find := fun hcache _ _ _ hparent hname => findInode_stored himage hcache hparent hname
  readDir := fun hinode hlists cache emits => readDir_listed himage hinode hlists cache emits
  readFolio := by
    intro ino inode folio hinode hreads cache
    have hle := le_pageLimit data.dataSize.toNat
    have hdevice := himage.device
    obtain ⟨other, hother, hreg, hpos, hpos', hfolio⟩ := hreads
    cases hinode.symm.trans hother
    obtain ⟨hsize, hinside⟩ := himage.file hinode hreg
    have hd := mountKernel_reads disk data.dataSize.toNat sb cache fun _ => true
    obtain ⟨folio', hreturns⟩ := readFolio_returns hd hsize hinside (by omega) hpos hpos' hfolio
    have hcontent := readFolio_content
      (mountKernel_readsPages disk data.dataSize.toNat sb cache fun _ => true) hsize (by omega) hpos
      hpos' (hreturns [])
    exact ⟨folio', hreturns [], inode, hinode, hcontent⟩

/-- In any order of calls, and whatever is evicted between them, a mounted device is seen as the
tree that it holds: paths lead where the names on the device lead, directories list their entries
from any position, and files read as their bytes. -/
theorem mounted_tree_seen (himage : TarImage data disk sb) {root : VfsInode InodeData}
    (hroot : storedInode data disk sb 1 = some root) {calls : List (FsCall InodeData)}
    (hcalls : ∀ call ∈ calls, (tree data disk sb).Allows call) :
    Program.Returns ((imageMount data disk sb).kernel .empty) (iget data 1) (.done root) ∧
      ∃ replies m, (imageMount data disk sb).run ⟨root, InodeCache.empty.insert root⟩ calls =
          some (replies, m) ∧
        List.Forall₂ (tree data disk sb).Answers calls replies := by
  have hle := le_pageLimit data.dataSize.toNat
  have hdevice := himage.device
  have hd := mountKernel_reads disk data.dataSize.toNat sb .empty fun _ => true
  have hino := (storedInode_ino hroot).1
  have hstored : storedInode data disk sb root.ino = some root := by rw [hino, hroot]
  have hm : Mounted.Represents ⟨root, InodeCache.empty.insert root⟩ (tree data disk sb) :=
    ⟨hroot, InodeCache.coherent_empty.insert hstored⟩
  obtain ⟨replies, m, hrun, hanswers, -⟩ := run_answers (imageMount_shows himage) hm hcalls
  exact ⟨iget_stored hd (by omega) InodeCache.coherent_empty hroot, replies, m, hrun, hanswers⟩

end Image

section Mkimage

def helloContent : List UInt8 := [72, 101, 108, 108, 111, 32, 102, 114, 111, 109, 32, 116, 97, 114,
  102, 115, 33, 10]

def helloName : List UInt8 := [104, 101, 108, 108, 111, 46, 116, 120, 116]

/-- The image that `mkimage.py` writes, block by block: the contents of `hello.txt`, the table of
the root directory, the name, the inode table, and the header in the last sector. -/
def mkimage : Disk := fun i =>
  if i < 4096 then helloContent[i]?.getD 0
  else if i < 8192 then
    ([2, 0, 0, 0, 0, 0, 0, 0, 0, 32, 0, 0, 0, 0, 0, 0, 9, 0, 0, 0, 0, 0, 0, 0, 8] :
      List UInt8)[i - 4096]?.getD 0
  else if i < 12288 then helloName[i - 8192]?.getD 0
  else if i < 19968 then
    ([0xed, 0x41, 0, 0, 0, 0, 0, 0, 0, 0, 0, 0, 0, 0, 0, 0, 32, 0, 0, 0, 0, 0, 0, 0, 0, 16, 0, 0, 0,
      0, 0, 0, 0xa4, 0x81, 0, 0, 0, 0, 0, 0, 0, 0, 0, 0, 0, 0, 0, 0, 18] :
      List UInt8)[i - 12288]?.getD 0
  else ([0, 48, 0, 0, 0, 0, 0, 0, 2] : List UInt8)[i - 19968]?.getD 0

def mkimageData : TarFsData where
  dataSize := 20480
  inodeTableOffset := 12288
  inodeCount := 2
  table_lt := by decide
  table_end_le := by decide

def mkimageRoot : VfsInode InodeData :=
  (NewINode.new 1 0).init (inodeParams ⟨0o040755, 0, 0, 0, 0, 0, 32, 4096⟩ .dir)

def mkimageHello : VfsInode InodeData :=
  (NewINode.new 2 0).init (inodeParams ⟨0o100644, 0, 0, 0, 0, 0, 18, 0⟩ .reg)

theorem storedInode_mkimage :
    storedInode mkimageData mkimage 0 1 = some mkimageRoot ∧
      storedInode mkimageData mkimage 0 2 = some mkimageHello := by
  have hroot : Inode.fromBytes (mkimage.tail (recordAddress mkimageData 1)) 0 =
      some ⟨0o040755, 0, 0, 0, 0, 0, 32, 4096⟩ := by decide +kernel
  have hhello : Inode.fromBytes (mkimage.tail (recordAddress mkimageData 2)) 0 =
      some ⟨0o100644, 0, 0, 0, 0, 0, 18, 0⟩ := by decide +kernel
  constructor
  · rw [storedInode, if_neg (by decide), decodeInode, hroot]
    rfl
  · rw [storedInode, if_neg (by decide), decodeInode, hhello]
    rfl

theorem storedInode_mkimage_cases {ino : UInt64} {inode : VfsInode InodeData}
    (h : storedInode mkimageData mkimage 0 ino = some inode) :
    ino = 1 ∧ inode = mkimageRoot ∨ ino = 2 ∧ inode = mkimageHello := by
  obtain ⟨⟨hne, hle⟩, -⟩ := storedInode_eq_some h
  have hpos : ino.toNat ≠ 0 := fun h0 => hne (UInt64.toNat_inj.mp h0)
  have hle' : ino.toNat ≤ 2 := UInt64.le_iff_toNat_le.mp hle
  obtain hone | htwo : ino.toNat = 1 ∨ ino.toNat = 2 := by omega
  · obtain rfl : ino = 1 := UInt64.toNat_inj.mp hone
    exact Or.inl ⟨rfl, (Option.some.inj (storedInode_mkimage.1.symm.trans h)).symm⟩
  · obtain rfl : ino = 2 := UInt64.toNat_inj.mp htwo
    exact Or.inr ⟨rfl, (Option.some.inj (storedInode_mkimage.2.symm.trans h)).symm⟩

theorem mkimage_entries : tableEntries mkimage 4096 1 = [⟨2, 8192, 9, 8⟩] := by decide +kernel

def mkimageDir : Directory mkimageData mkimage where
  inode := mkimageRoot
  count := 1
  size_eq := Offset.ofUInt64_val (by decide)
  offset_mod := by decide
  table_le := by decide
  names := by
    show ∀ e ∈ tableEntries mkimage 4096 1, _
    rw [mkimage_entries]
    decide

theorem mkimageDir_entries : mkimageDir.entries = [⟨2, 8192, 9, 8⟩] := mkimage_entries

theorem mkimage_entriesOf : entriesOf mkimage mkimageRoot = [⟨2, 8192, 9, 8⟩] :=
  (entriesOf_directory mkimageDir).trans mkimageDir_entries

theorem mkimage_name : Directory.storedName mkimage ⟨2, 8192, 9, 8⟩ = helloName := by decide +kernel

theorem tarImage_mkimage : TarImage mkimageData mkimage 0 where
  device := by decide
  directory := by
    intro ino inode hinode hdir
    rcases storedInode_mkimage_cases hinode with ⟨rfl, rfl⟩ | ⟨rfl, rfl⟩
    · refine ⟨mkimageDir, rfl, fun e he => ?_, fun e he => ?_⟩
      · rw [mkimageDir_entries, List.mem_singleton] at he
        subst he
        exact ⟨_, storedInode_mkimage.2⟩
      · rw [mkimageDir_entries, List.mem_singleton] at he
        subst he
        rw [mkimage_name, Directory.firstTouched, mkimageDir_entries]
        decide +kernel
    · cases hdir
  file := by
    intro ino inode hinode hreg
    rcases storedInode_mkimage_cases hinode with ⟨rfl, rfl⟩ | ⟨rfl, rfl⟩
    · cases hreg
    · have hsize : mkimageHello.size.val = 18 := Offset.ofUInt64_val (by decide)
      rw [hsize]
      decide

def hello : Name := ⟨helloName, by decide⟩

def other : Name := ⟨[120], by decide⟩

theorem mkimage_walkable (name : Name)
    (hname : name = hello ∨ touches mkimage 20480 name.1 ⟨2, 8192, 9, 8⟩ = false) :
    (tree mkimageData mkimage 0).Walkable 1 [name] := by
  refine ⟨⟨mkimageRoot, storedInode_mkimage.1, rfl, ?_⟩, fun _ _ => trivial⟩
  rw [mkimage_entriesOf]
  rcases hname with rfl | hnone
  · exact Or.inl ⟨_, List.mem_singleton_self _, mkimage_name⟩
  · refine Or.inr fun e he => ?_
    rw [List.mem_singleton.mp he]
    exact hnone

/-- The root is listed, the file is found, read, forgotten and found again. -/
def mkimageCalls : List (FsCall InodeData) :=
  [.list [] 0 fun _ => true, .stat [hello], .read [hello] ⟨0, 4096, fun _ => 77⟩, .evict 2,
    .stat [hello], .stat [other]]

theorem mkimage_hello_resolves (ino : UInt64)
    (h : (tree mkimageData mkimage 0).resolve 1 [hello] = some ino) : ino = 2 := by
  have hchild : (tree mkimageData mkimage 0).child 1 hello.1 = some 2 := by
    rw [tree_child storedInode_mkimage.1, mkimage_entriesOf, List.find?_cons, mkimage_name]
    rfl
  have hresolve : (tree mkimageData mkimage 0).resolve 1 [hello] = some 2 := by
    rw [FsTree.resolve, hchild]
    rfl
  exact (Option.some.inj (hresolve.symm.trans h)).symm

theorem mounted_tree_seen_mkimage :
    (fillSuper.run (steadyKernel (fun index => .folio (mkimage.page index)) (fun _ => .null) 40 0
        true) []).1 = .done mkimageData ∧
      Program.Returns ((imageMount mkimageData mkimage 0).kernel .empty) (iget mkimageData 1)
        (.done mkimageRoot) ∧
      ∃ replies m, (imageMount mkimageData mkimage 0).run
          ⟨mkimageRoot, InodeCache.empty.insert mkimageRoot⟩ mkimageCalls = some (replies, m) ∧
        List.Forall₂ (tree mkimageData mkimage 0).Answers mkimageCalls replies := by
  have hhello := mkimage_walkable hello (Or.inl rfl)
  refine ⟨by decide +kernel, mounted_tree_seen tarImage_mkimage storedInode_mkimage.1
    fun call hcall => ?_⟩
  simp only [mkimageCalls, List.mem_cons, List.not_mem_nil, or_false] at hcall
  rcases hcall with rfl | rfl | rfl | rfl | rfl | rfl
  · refine ⟨trivial, fun ino hino => ?_⟩
    cases Option.some.inj hino
    exact ⟨mkimageRoot, storedInode_mkimage.1, rfl, 0, rfl⟩
  · exact hhello
  · refine ⟨hhello, fun ino hino => ?_⟩
    cases mkimage_hello_resolves ino hino
    exact ⟨mkimageHello, storedInode_mkimage.2, rfl, by decide, by decide, by decide⟩
  · show (2 : UInt64) ≠ 1
    decide
  · exact hhello
  · exact mkimage_walkable other (Or.inr (by decide +kernel))

end Mkimage

end Rko.TarFs
