import Rko.DentrySplice
import Rko.DirListing
import Rko.InodeInit
import Rko.LockedFolio

namespace Rko

open CallProgram

variable {δ : Type}

/-- The inodes that the kernel keeps for a superblock, by their numbers. -/
abbrev InodeCache (δ : Type) := UInt64 → Option (VfsInode δ)

namespace InodeCache

def empty : InodeCache δ := fun _ => none

def insert (cache : InodeCache δ) (inode : VfsInode δ) : InodeCache δ :=
  Function.update cache inode.ino (some inode)

def evict (cache : InodeCache δ) (ino : UInt64) : InodeCache δ := Function.update cache ino none

/-- `iget_locked`: what the cache holds, or else a new inode of that number. -/
def lockInode (cache : InodeCache δ) (sb : Ptr) (ino : UInt64) : LockedInode δ :=
  match cache ino with
  | some inode => .cached inode
  | none => .fresh ino sb

/-- Nothing in the cache differs from what is stored. -/
def Coherent (stored : UInt64 → Option (VfsInode δ)) (cache : InodeCache δ) : Prop :=
  ∀ ino inode, cache ino = some inode → stored ino = some inode

variable {stored : UInt64 → Option (VfsInode δ)} {cache : InodeCache δ}

theorem coherent_empty : Coherent stored (empty : InodeCache δ) := by
  intro ino inode h
  cases h

theorem Coherent.insert (h : Coherent stored cache) {inode : VfsInode δ}
    (hinode : stored inode.ino = some inode) : Coherent stored (cache.insert inode) := by
  intro ino found hfound
  by_cases hino : ino = inode.ino
  · subst hino
    rw [InodeCache.insert, Function.update_self] at hfound
    exact hinode.trans hfound
  · rw [InodeCache.insert, Function.update_of_ne hino] at hfound
    exact h _ _ hfound

theorem Coherent.evict (h : Coherent stored cache) (ino : UInt64) :
    Coherent stored (cache.evict ino) := by
  intro other found hfound
  by_cases hino : other = ino
  · subst hino
    rw [InodeCache.evict, Function.update_self] at hfound
    cases hfound
  · rw [InodeCache.evict, Function.update_of_ne hino] at hfound
    exact h _ _ hfound

end InodeCache

/-- The kernel under a mounted file system: an inode cache, a device, and somebody who takes the
entries of a directory or refuses them. A spliced dentry never has an alias. -/
def mountKernel (reads : Nat → FolioResult) (sb : Ptr) (cache : InodeCache δ)
    (emits : History δ → Bool) : Kernel δ
  | h, .dirEmit _ _ _ _ => emits h
  | h, op => steadyKernel reads (cache.lockInode sb) 0 0 true h op

theorem igetWith_returns {reads : Nat → FolioResult} {sb : Ptr} {cache : InodeCache δ}
    {emits : History δ → Bool} {ino : UInt64} {inode : VfsInode δ}
    {load : NewINode → Prog δ (VfsInode δ)} {stored : UInt64 → Option (VfsInode δ)}
    (hcache : cache.Coherent stored) (hstored : stored ino = some inode)
    (hload : Program.Returns (mountKernel reads sb cache emits) (load (.new ino sb)) (.done inode)) :
    Program.Returns (mountKernel reads sb cache emits) (igetWith ino load) (.done inode) := by
  intro h
  cases hfound : cache ino with
  | some found =>
    have hlock : mountKernel reads sb cache emits h (.igetLocked ino) = .cached found := by
      show cache.lockInode sb ino = _
      rw [InodeCache.lockInode, hfound]
    rw [igetWith_run_cached hlock]
    cases (hcache _ _ hfound).symm.trans hstored
    rfl
  | none =>
    have hlock : mountKernel reads sb cache emits h (.igetLocked ino) = .fresh ino sb := by
      show cache.lockInode sb ino = _
      rw [InodeCache.lockInode, hfound]
    rw [igetWith_outcome_fresh hlock]
    exact hload _

/-- The callbacks of a file system. `find` is `lookup` up to the inode for `splice_alias`. -/
structure FsDriver (δ : Type) where
  lookup : VfsInode δ → Dentry → Prog δ (Option Ptr)
  find : VfsInode δ → List UInt8 → Prog δ (Option (VfsInode δ))
  readDir : VfsInode δ → Int → Prog δ Int
  readFolio : VfsInode δ → LockedFolio → Prog δ LockedFolio
  lookup_eq : ∀ parent dentry,
    lookup parent dentry = (find parent dentry.name).bind (spliceAlias dentry)

abbrev Name := { name : List UInt8 // name ≠ [] }

/-- What the VFS asks of a mounted file system; a path is walked from the root, name by name. -/
inductive FsCall (δ : Type)
  | stat (path : List Name)
  | list (path : List Name) (pos : Int) (emits : History δ → Bool)
  | read (path : List Name) (folio : LockedFolio)
  | evict (ino : UInt64)

inductive FsReply (δ : Type)
  | missing
  | inode (inode : VfsInode δ)
  | listed (pos : Int) (entries : List Listed)
  | folio (folio : LockedFolio)
  | evicted

structure Mounted (δ : Type) where
  root : VfsInode δ
  cache : InodeCache δ

/-- A superblock with its device and the driver that serves it. -/
structure FsMount (δ : Type) where
  driver : FsDriver δ
  reads : Nat → FolioResult
  sb : Ptr

namespace FsMount

variable (fs : FsMount δ)

def kernel (cache : InodeCache δ) : Kernel δ := mountKernel fs.reads fs.sb cache fun _ => true

/-- The VFS sees the outcome of `lookup`; the dentry is bound to what was passed on. -/
def walk : InodeCache δ → VfsInode δ → List Name → Option (Option (VfsInode δ) × InodeCache δ)
  | cache, inode, [] => some (some inode, cache)
  | cache, inode, name :: names =>
    match ((fs.driver.lookup inode ⟨fs.sb, name.1, name.2⟩).run (fs.kernel cache) []).1,
      ((fs.driver.find inode name.1).run (fs.kernel cache) []).1 with
    | .done none, .done (some child) => walk (cache.insert child) child names
    | .done none, .done none => some (none, cache)
    | _, _ => none

def step (m : Mounted δ) : FsCall δ → Option (FsReply δ × Mounted δ)
  | .stat path => do
    let (found, cache) ← fs.walk m.cache m.root path
    match found with
    | none => some (.missing, { m with cache := cache })
    | some inode => some (.inode inode, { m with cache := cache })
  | .list path pos emits => do
    let (found, cache) ← fs.walk m.cache m.root path
    match found with
    | none => some (.missing, { m with cache := cache })
    | some inode =>
      match (fs.driver.readDir inode pos).run (mountKernel fs.reads fs.sb cache emits) [] with
      | (.done pos', h) => some (.listed pos' (accepted h), { m with cache := cache })
      | _ => none
  | .read path folio => do
    let (found, cache) ← fs.walk m.cache m.root path
    match found with
    | none => some (.missing, { m with cache := cache })
    | some inode =>
      match ((fs.driver.readFolio inode folio).run (fs.kernel cache) []).1 with
      | .done folio' => some (.folio folio', { m with cache := cache })
      | _ => none
  | .evict ino =>
    if ino = m.root.ino then none else some (.evicted, { m with cache := m.cache.evict ino })

/-- The calls one after the other, with the replies, as long as none fails. -/
def run (m : Mounted δ) : List (FsCall δ) → Option (List (FsReply δ) × Mounted δ)
  | [] => some ([], m)
  | call :: calls => do
    let (reply, m) ← fs.step m call
    let (replies, m) ← run m calls
    return (reply :: replies, m)

end FsMount

/-- What is to be seen of a file system: the inodes that are stored, the names that may be asked
for in a directory and where they lead, and the contents of directories and files. -/
structure FsTree (δ : Type) where
  root : UInt64
  stored : UInt64 → Option (VfsInode δ)
  Names : UInt64 → List UInt8 → Prop
  child : UInt64 → List UInt8 → Option UInt64
  Lists : UInt64 → Int → Prop
  listed : UInt64 → Int → (History δ → Bool) → Int → List Listed → Prop
  Reads : UInt64 → LockedFolio → Prop
  folio : UInt64 → LockedFolio → LockedFolio → Prop

namespace FsTree

variable (tree : FsTree δ)

def resolve : UInt64 → List Name → Option UInt64
  | ino, [] => some ino
  | ino, name :: names =>
    match tree.child ino name.1 with
    | some ino => resolve ino names
    | none => none

/-- Every name on the way may be asked for. -/
def Walkable : UInt64 → List Name → Prop
  | _, [] => True
  | ino, name :: names =>
    tree.Names ino name.1 ∧ ∀ child, tree.child ino name.1 = some child → Walkable child names

/-- The calls that the VFS may make: along walkable paths, for directories or files at their ends,
and it does not evict the root. -/
def Allows : FsCall δ → Prop
  | .stat path => tree.Walkable tree.root path
  | .list path pos _ => tree.Walkable tree.root path ∧
    ∀ ino, tree.resolve tree.root path = some ino → tree.Lists ino pos
  | .read path folio => tree.Walkable tree.root path ∧
    ∀ ino, tree.resolve tree.root path = some ino → tree.Reads ino folio
  | .evict ino => ino ≠ tree.root

/-- The replies that the tree calls for. -/
inductive Answers : FsCall δ → FsReply δ → Prop
  | missingStat {path : List Name} (h : tree.resolve tree.root path = none) :
    Answers (.stat path) .missing
  | missingList {path : List Name} {pos : Int} {emits : History δ → Bool}
    (h : tree.resolve tree.root path = none) : Answers (.list path pos emits) .missing
  | missingRead {path : List Name} {folio : LockedFolio}
    (h : tree.resolve tree.root path = none) : Answers (.read path folio) .missing
  | inode {path : List Name} {ino : UInt64} {inode : VfsInode δ}
    (h : tree.resolve tree.root path = some ino) (hinode : tree.stored ino = some inode) :
    Answers (.stat path) (.inode inode)
  | listed {path : List Name} {pos pos' : Int} {emits : History δ → Bool} {ino : UInt64}
    {entries : List Listed} (h : tree.resolve tree.root path = some ino)
    (hlisted : tree.listed ino pos emits pos' entries) :
    Answers (.list path pos emits) (.listed pos' entries)
  | folio {path : List Name} {folio folio' : LockedFolio} {ino : UInt64}
    (h : tree.resolve tree.root path = some ino) (hfolio : tree.folio ino folio folio') :
    Answers (.read path folio) (.folio folio')
  | evicted {ino : UInt64} : Answers (.evict ino) .evicted

end FsTree

/-- The driver shows the tree as long as the cache holds nothing else. -/
structure FsMount.Shows (fs : FsMount δ) (tree : FsTree δ) : Prop where
  stored_ino : ∀ {ino inode}, tree.stored ino = some inode → inode.ino = ino ∧ inode.sb = fs.sb
  find : ∀ {cache : InodeCache δ}, cache.Coherent tree.stored → ∀ {ino parent name},
    tree.stored ino = some parent → tree.Names ino name →
    ∃ found, Program.Returns (fs.kernel cache) (fs.driver.find parent name) (.done found) ∧
      found.map (·.ino) = tree.child ino name ∧
      ∀ child, found = some child → tree.stored child.ino = some child
  readDir : ∀ {ino inode pos}, tree.stored ino = some inode → tree.Lists ino pos →
    ∀ (cache : InodeCache δ) (emits : History δ → Bool), ∃ pos' h,
      (fs.driver.readDir inode pos).run (mountKernel fs.reads fs.sb cache emits) [] =
        (.done pos', h) ∧ tree.listed ino pos emits pos' (accepted h)
  readFolio : ∀ {ino inode folio}, tree.stored ino = some inode → tree.Reads ino folio →
    ∀ cache : InodeCache δ, ∃ folio',
      ((fs.driver.readFolio inode folio).run (fs.kernel cache) []).1 = .done folio' ∧
        tree.folio ino folio folio'

/-- The root is the stored one, and the cache holds nothing that is not stored. -/
structure Mounted.Represents (m : Mounted δ) (tree : FsTree δ) : Prop where
  root : tree.stored tree.root = some m.root
  coherent : m.cache.Coherent tree.stored

section

variable {fs : FsMount δ} {tree : FsTree δ}

/-- With nothing wrong about the inode, a lookup binds it and returns null. -/
theorem lookup_returns {cache : InodeCache δ} {parent : VfsInode δ} {dentry : Dentry}
    {found : Option (VfsInode δ)} (hsb : ∀ inode ∈ found, dentry.sb = inode.sb)
    (hfind : Program.Returns (fs.kernel cache) (fs.driver.find parent dentry.name) (.done found)) :
    Program.Returns (fs.kernel cache) (fs.driver.lookup parent dentry) (.done none) := by
  rw [fs.driver.lookup_eq]
  refine hfind.bind fun h => ?_
  have hnull : fs.kernel cache h (.dSpliceAlias (found.map (·.ino))) = 0 := rfl
  rw [spliceAlias_run hsb hnull, if_pos rfl]

theorem walk_resolves (hshows : fs.Shows tree) {path : List Name} {cache : InodeCache δ}
    {ino : UInt64} {inode : VfsInode δ} (hcache : cache.Coherent tree.stored)
    (hinode : tree.stored ino = some inode) (hpath : tree.Walkable ino path) :
    ∃ found cache', fs.walk cache inode path = some (found, cache') ∧
      cache'.Coherent tree.stored ∧
      (found = none ∧ tree.resolve ino path = none ∨
        ∃ ino' inode', found = some inode' ∧ tree.resolve ino path = some ino' ∧
          tree.stored ino' = some inode') := by
  induction path generalizing cache ino inode with
  | nil => exact ⟨_, _, rfl, hcache, Or.inr ⟨ino, inode, rfl, rfl, hinode⟩⟩
  | cons name path ih =>
    obtain ⟨hname, hrest⟩ := hpath
    obtain ⟨found, hfind, hchild, hstored⟩ := hshows.find hcache hinode hname
    have hlookup : Program.Returns (fs.kernel cache)
        (fs.driver.lookup inode ⟨fs.sb, name.1, name.2⟩) (.done none) :=
      lookup_returns (fun child hc => (hshows.stored_ino (hstored child hc)).2.symm) hfind
    rw [FsMount.walk, hlookup [], hfind [], FsTree.resolve, ← hchild]
    cases found with
    | none => exact ⟨none, cache, rfl, hcache, Or.inl ⟨rfl, rfl⟩⟩
    | some child =>
      have hsome := hstored child rfl
      exact ih (hcache.insert hsome) hsome (hrest child.ino hchild.symm)

/-- One call: the reply is the one of the tree, and the cache keeps to what is stored. -/
theorem step_answers (hshows : fs.Shows tree) {m : Mounted δ} (hm : m.Represents tree)
    {call : FsCall δ} (hcall : tree.Allows call) :
    ∃ reply m', fs.step m call = some (reply, m') ∧ tree.Answers call reply ∧
      m'.Represents tree := by
  cases call with
  | stat path =>
    obtain ⟨found, cache, hwalk, hcache, hfound⟩ := walk_resolves hshows hm.coherent hm.root hcall
    rw [FsMount.step, hwalk]
    rcases hfound with ⟨rfl, hnone⟩ | ⟨ino, inode, rfl, hsome, hinode⟩
    · exact ⟨_, _, rfl, .missingStat hnone, hm.root, hcache⟩
    · exact ⟨_, _, rfl, .inode hsome hinode, hm.root, hcache⟩
  | list path pos emits =>
    obtain ⟨hpath, hlists⟩ := hcall
    obtain ⟨found, cache, hwalk, hcache, hfound⟩ := walk_resolves hshows hm.coherent hm.root hpath
    rw [FsMount.step, hwalk]
    rcases hfound with ⟨rfl, hnone⟩ | ⟨ino, inode, rfl, hsome, hinode⟩
    · exact ⟨_, _, rfl, .missingList hnone, hm.root, hcache⟩
    · obtain ⟨pos', h, hrun, hlisted⟩ := hshows.readDir hinode (hlists ino hsome) cache emits
      refine ⟨.listed pos' (accepted h), { m with cache := cache }, ?_, .listed hsome hlisted,
        hm.root, hcache⟩
      simp only [Option.bind_eq_bind, Option.bind_some, hrun]
  | read path folio =>
    obtain ⟨hpath, hreads⟩ := hcall
    obtain ⟨found, cache, hwalk, hcache, hfound⟩ := walk_resolves hshows hm.coherent hm.root hpath
    rw [FsMount.step, hwalk]
    rcases hfound with ⟨rfl, hnone⟩ | ⟨ino, inode, rfl, hsome, hinode⟩
    · exact ⟨_, _, rfl, .missingRead hnone, hm.root, hcache⟩
    · obtain ⟨folio', hrun, hfolio⟩ := hshows.readFolio hinode (hreads ino hsome) cache
      refine ⟨.folio folio', { m with cache := cache }, ?_, .folio hsome hfolio, hm.root, hcache⟩
      simp only [Option.bind_eq_bind, Option.bind_some, hrun]
  | evict ino =>
    have hroot := (hshows.stored_ino hm.root).1
    have hne : ino ≠ m.root.ino := by
      rw [hroot]
      exact hcall
    rw [FsMount.step, if_neg hne]
    exact ⟨_, _, rfl, .evicted, hm.root, hm.coherent.evict ino⟩

theorem run_answers (hshows : fs.Shows tree) {m : Mounted δ} (hm : m.Represents tree)
    {calls : List (FsCall δ)} (hcalls : ∀ call ∈ calls, tree.Allows call) :
    ∃ replies m', fs.run m calls = some (replies, m') ∧
      List.Forall₂ tree.Answers calls replies ∧ m'.Represents tree := by
  induction calls generalizing m with
  | nil => exact ⟨[], m, rfl, .nil, hm⟩
  | cons call calls ih =>
    obtain ⟨reply, m₁, hstep, hanswer, hm₁⟩ :=
      step_answers hshows hm (hcalls call (List.mem_cons_self ..))
    obtain ⟨replies, m₂, hrun, hanswers, hm₂⟩ :=
      ih hm₁ fun c hc => hcalls c (List.mem_cons_of_mem call hc)
    refine ⟨reply :: replies, m₂, ?_, .cons hanswer hanswers, hm₂⟩
    rw [FsMount.run, hstep]
    show (fs.run m₁ calls).bind _ = _
    rw [hrun]
    rfl

end

end Rko
