import Rko.CallPool
import Rko.GuardedRun

namespace Rko

open GuardedRun CallPool

/-- A super block between `get_tree` and the end of `kill_sb`, with the `T::Data` that `s_fs_info`
points to. -/
inductive SuperLife
  | new
  | filled (data : Nat)
  | ready (data : Nat)
  | failed (data : Option Nat)
  | killing (data : Option Nat)
  | dead
deriving DecidableEq, Repr

def SuperLife.fsInfo : SuperLife → Option Nat
  | .new => none
  | .filled data => some data
  | .ready data => some data
  | .failed data => data
  | .killing data => data
  | .dead => none

/-- The slot for the `T::INodeData` beside an inode is written when the inode is initialised; until
then the inode is new, and it is bad if this never comes. -/
inductive InodeSlot
  | new
  | live (data : Nat)
  | bad
deriving DecidableEq, Repr

/-- An `INodeWithData<T::INodeData>` of the slab cache, and the super block of its inode. -/
structure SlabInode where
  sb : Nat
  slot : InodeSlot
deriving DecidableEq, Repr

def SlabInode.data (x : SlabInode) : Option Nat :=
  match x.slot with
  | .live data => some data
  | _ => none

/-- A module that registers a file system whose `T::INodeData` has a size. Values of `T::Data` and
of `T::INodeData` are numbered as they are made. -/
structure FsModule where
  registered : Bool
  inodeCache : Bool
  supers : List SuperLife
  inodes : List SlabInode
  nextData : Nat
  nextInodeData : Nat
  droppedData : List Nat
  droppedInodeData : List Nat
  faulted : Bool
deriving DecidableEq, Repr

/-- Besides the callbacks, `failed` is the drop of a `NewINode`, `discard` is the kernel's destruction
of an inode that `iget_locked` has allocated in vain, as another thread was faster, and `use` is any
callback on an inode. -/
inductive FsAction
  | register (cache registered : Bool)
  | unregister
  | mount
  | fillSuper (i : Nat) (ok : Bool)
  | initRoot (i : Nat) (ok : Bool)
  | iget (i : Nat) (alloc : Bool)
  | init (j : Nat)
  | failed (j : Nat)
  | discard (j : Nat)
  | use (j : Nat)
  | evict (j : Nat)
  | kill (i : Nat)
  | reclaim (i : Nat)
deriving DecidableEq, Repr

namespace FsModule

def new : FsModule := ⟨false, false, [], [], 0, 0, [], [], false⟩

/-- Memory is used that has no value in it, or no longer, or a reference is given back that is not
held. -/
def fault (m : FsModule) : FsModule := { m with faulted := true }

def sbData (m : FsModule) (i : Nat) : Option Nat := m.supers[i]?.bind SuperLife.fsInfo

/-- `Registration::pin_init`: if one of the two calls fails, nothing is left. -/
def pinInit (m : FsModule) (cache registered : Bool) : FsModule :=
  if cache && registered then { m with inodeCache := true, registered := true } else m

/-- The destructors of `Registration` and of its `MemCache`. -/
def dropRegistration (m : FsModule) : FsModule :=
  let m' := { m with registered := false, inodeCache := false }
  if m.inodes.isEmpty then m' else m'.fault

def allocInodeCallback (m : FsModule) (i : Nat) (alloc : Bool) : FsModule :=
  if m.inodeCache then
    if alloc then { m with inodes := m.inodes ++ [⟨i, .new⟩] } else m
  else m.fault

/-- What is not bad is dropped. The destructor of the value may use the data of the super block. -/
def destroyInodeCallback (m : FsModule) (j : Nat) (x : SlabInode) : FsModule :=
  let m' := { m with inodes := m.inodes.eraseIdx j }
  if m.inodeCache then
    match x.slot with
    | .bad => m'
    | .new => m'.fault
    | .live d =>
      if (m.sbData x.sb).isSome then { m' with droppedInodeData := d :: m.droppedInodeData }
      else m'.fault
  else m'.fault

/-- `fill_super_callback` up to `s_fs_info`. -/
def fillSuperCallback (m : FsModule) (i : Nat) (ok : Bool) : FsModule :=
  if ok then
    { m with supers := m.supers.set i (.filled m.nextData), nextData := m.nextData + 1 }
  else { m with supers := m.supers.set i (.failed none) }

/-- `kill_sb_callback` behind `kill_anon_super` or `kill_block_super`. -/
def reclaimData (m : FsModule) (i : Nat) (fsInfo : Option Nat) : FsModule :=
  let m' := { m with supers := m.supers.set i .dead }
  match fsInfo with
  | some d => { m' with droppedData := d :: m.droppedData }
  | none => m'

/-- `inode.data()` and `sb.data()`. -/
def useData (m : FsModule) (x : SlabInode) : FsModule :=
  if x.data.isSome && (m.sbData x.sb).isSome then m else m.fault

/-- `NewINode::drop`: `iget_failed` marks the inode as bad and gives back its reference, and then the
`ARef` in the `NewINode` does so again. -/
def dropNew (m : FsModule) (j : Nat) (x : SlabInode) : FsModule :=
  { m with inodes := m.inodes.set j ⟨x.sb, .bad⟩ }.fault

/-- The kernel gives callbacks only to inodes that are neither new nor bad, evicts no new inode,
kills a super block when it is unmounted or its mount has failed, and has destroyed all of its
inodes when `kill_anon_super` or `kill_block_super` returns. -/
def step (m : FsModule) : FsAction → Option FsModule
  | .register cache registered =>
    if m.registered then none else some (m.pinInit cache registered)
  | .unregister => if m.registered then some m.dropRegistration else none
  | .mount => if m.registered then some { m with supers := m.supers ++ [.new] } else none
  | .fillSuper i ok =>
    match m.supers[i]? with
    | some .new => some (m.fillSuperCallback i ok)
    | _ => none
  | .initRoot i ok =>
    match m.supers[i]? with
    | some (.filled data) =>
      some { m with supers := m.supers.set i (if ok then .ready data else .failed (some data)) }
    | _ => none
  | .iget i alloc =>
    match m.supers[i]? with
    | some (.filled _) => some (m.allocInodeCallback i alloc)
    | some (.ready _) => some (m.allocInodeCallback i alloc)
    | _ => none
  | .init j =>
    match m.inodes[j]? with
    | some ⟨sb, .new⟩ =>
      some { m with
        inodes := m.inodes.set j ⟨sb, .live m.nextInodeData⟩
        nextInodeData := m.nextInodeData + 1 }
    | _ => none
  | .failed j =>
    match m.inodes[j]? with
    | some ⟨sb, .new⟩ => some (m.dropNew j ⟨sb, .new⟩)
    | _ => none
  | .discard j =>
    match m.inodes[j]? with
    | some ⟨sb, .new⟩ => some (m.destroyInodeCallback j ⟨sb, .new⟩)
    | _ => none
  | .use j =>
    match m.inodes[j]? with
    | some ⟨sb, .live d⟩ => some (m.useData ⟨sb, .live d⟩)
    | _ => none
  | .evict j =>
    match m.inodes[j]? with
    | some ⟨sb, .live d⟩ => some (m.destroyInodeCallback j ⟨sb, .live d⟩)
    | some ⟨sb, .bad⟩ => some (m.destroyInodeCallback j ⟨sb, .bad⟩)
    | _ => none
  | .kill i =>
    match m.supers[i]? with
    | some (.ready data) => some { m with supers := m.supers.set i (.killing (some data)) }
    | some (.failed data) => some { m with supers := m.supers.set i (.killing data) }
    | _ => none
  | .reclaim i =>
    match m.supers[i]? with
    | some (.killing data) =>
      if ∀ x ∈ m.inodes, x.sb ≠ i then some (m.reclaimData i data) else none
    | _ => none

/-- The module is not removed under a super block. -/
def staysLoaded (m : FsModule) : FsAction → Bool
  | .unregister => m.supers.all fun sb => sb = .dead
  | _ => true

end FsModule

/-- An inode is given up before it was initialised. -/
def FsAction.abandons : FsAction → Bool
  | .failed _ => true
  | .discard _ => true
  | _ => false

namespace FsModule

variable {m m' : FsModule}

/-- What a step does; a super block that has its root, fails or is killed keeps its data. -/
inductive Transition (m : FsModule) : FsAction → FsModule → Prop
  | register (cache registered : Bool) :
    Transition m (.register cache registered) (m.pinInit cache registered)
  | unregister : Transition m .unregister m.dropRegistration
  | mount (h : m.registered = true) : Transition m .mount { m with supers := m.supers ++ [.new] }
  | fillSuper {i : Nat} (hi : m.supers[i]? = some .new) (ok : Bool) :
    Transition m (.fillSuper i ok) (m.fillSuperCallback i ok)
  | moveSuper {a : FsAction} {i : Nat} {sb sb' : SuperLife} (ha : a.abandons = false)
    (hi : m.supers[i]? = some sb) (halive : sb ≠ .dead) (hinfo : sb'.fsInfo = sb.fsInfo) :
    Transition m a { m with supers := m.supers.set i sb' }
  | iget {i : Nat} {sb : SuperLife} (hi : m.supers[i]? = some sb) (hdata : sb.fsInfo.isSome = true)
    (alloc : Bool) : Transition m (.iget i alloc) (m.allocInodeCallback i alloc)
  | init {j sb : Nat} (hj : m.inodes[j]? = some ⟨sb, .new⟩) :
    Transition m (.init j) { m with
      inodes := m.inodes.set j ⟨sb, .live m.nextInodeData⟩
      nextInodeData := m.nextInodeData + 1 }
  | failed {j sb : Nat} : Transition m (.failed j) (m.dropNew j ⟨sb, .new⟩)
  | discard {j sb : Nat} : Transition m (.discard j) (m.destroyInodeCallback j ⟨sb, .new⟩)
  | use {j sb d : Nat} (hj : m.inodes[j]? = some ⟨sb, .live d⟩) :
    Transition m (.use j) (m.useData ⟨sb, .live d⟩)
  | evict {j sb d : Nat} (hj : m.inodes[j]? = some ⟨sb, .live d⟩) :
    Transition m (.evict j) (m.destroyInodeCallback j ⟨sb, .live d⟩)
  | evictBad {j sb : Nat} (hj : m.inodes[j]? = some ⟨sb, .bad⟩) :
    Transition m (.evict j) (m.destroyInodeCallback j ⟨sb, .bad⟩)
  | reclaim {i : Nat} {data : Option Nat} (hi : m.supers[i]? = some (.killing data))
    (hnone : ∀ x ∈ m.inodes, x.sb ≠ i) : Transition m (.reclaim i) (m.reclaimData i data)

theorem transition_of_step {a : FsAction} (h : m.step a = some m') : Transition m a m' := by
  cases a with
  | register cache registered =>
    obtain ⟨-, ⟨⟩⟩ := Option.ite_none_left_eq_some.mp h
    exact .register cache registered
  | unregister =>
    obtain ⟨-, ⟨⟩⟩ := Option.ite_none_right_eq_some.mp h
    exact .unregister
  | mount =>
    obtain ⟨hregistered, ⟨⟩⟩ := Option.ite_none_right_eq_some.mp h
    exact .mount hregistered
  | fillSuper i ok =>
    simp only [step] at h
    split at h
    next hi =>
      cases h
      exact .fillSuper hi ok
    next => cases h
  | initRoot i ok =>
    simp only [step] at h
    split at h
    next data hi =>
      cases h
      exact .moveSuper rfl hi nofun (by cases ok <;> rfl)
    next => cases h
  | iget i alloc =>
    simp only [step] at h
    split at h
    next data hi =>
      cases h
      exact .iget hi rfl alloc
    next data hi =>
      cases h
      exact .iget hi rfl alloc
    next => cases h
  | init j =>
    simp only [step] at h
    split at h
    next sb hj =>
      cases h
      exact .init hj
    next => cases h
  | failed j =>
    simp only [step] at h
    split at h
    next =>
      cases h
      exact .failed
    next => cases h
  | discard j =>
    simp only [step] at h
    split at h
    next =>
      cases h
      exact .discard
    next => cases h
  | use j =>
    simp only [step] at h
    split at h
    next sb d hj =>
      cases h
      exact .use hj
    next => cases h
  | evict j =>
    simp only [step] at h
    split at h
    next sb d hj =>
      cases h
      exact .evict hj
    next sb hj =>
      cases h
      exact .evictBad hj
    next => cases h
  | kill i =>
    simp only [step] at h
    split at h
    next data hi =>
      cases h
      exact .moveSuper rfl hi nofun rfl
    next data hi =>
      cases h
      exact .moveSuper rfl hi nofun rfl
    next => cases h
  | reclaim i =>
    simp only [step] at h
    split at h
    next data hi =>
      obtain ⟨hnone, ⟨⟩⟩ := Option.ite_none_right_eq_some.mp h
      exact .reclaim hi hnone
    next => cases h

/-- As long as nothing went wrong: the cache is there for every super block that is not dead, no
inode is bad or without the data of its super block, and no value is lost or was dropped twice. -/
structure Kept (m : FsModule) : Prop where
  safe : m.faulted = false
  cached : m.inodeCache = m.registered
  mounted : ∀ sb ∈ m.supers, sb ≠ .dead → m.inodeCache = true
  usable : ∀ x ∈ m.inodes, x.slot ≠ .bad ∧ (m.sbData x.sb).isSome = true
  data : Accounted SuperLife.fsInfo m.supers m.droppedData m.nextData
  inodeData : Accounted SlabInode.data m.inodes m.droppedInodeData m.nextInodeData

theorem sbData_set {i : Nat} {sb : SuperLife} (hi : m.supers[i]? = some sb) (sb' : SuperLife)
    (k : Nat) : ((m.supers.set i sb')[k]?.bind SuperLife.fsInfo) =
      if k = i then sb'.fsInfo else m.sbData k := by
  obtain ⟨hlt, -⟩ := List.getElem?_eq_some_iff.mp hi
  by_cases hk : k = i
  · rw [if_pos hk, hk, List.getElem?_set_self hlt, Option.bind_some]
  · rw [if_neg hk, List.getElem?_set_ne (fun h => hk h.symm), sbData]

namespace Kept

theorem new : Kept new where
  safe := rfl
  cached := rfl
  mounted := nofun
  usable := nofun
  data := List.Perm.nil
  inodeData := List.Perm.nil

/-- The super block of an inode is not dead, so that all inodes are gone when all of them are. -/
theorem inodes_eq_nil (h : m.Kept) (hdead : ∀ sb ∈ m.supers, sb = .dead) : m.inodes = [] := by
  refine List.eq_nil_iff_forall_not_mem.mpr fun x hx => ?_
  obtain ⟨d, hd⟩ := Option.isSome_iff_exists.mp (h.usable x hx).2
  obtain ⟨sb, hsb, hinfo⟩ := Option.bind_eq_some_iff.mp hd
  rw [hdead sb (List.mem_of_getElem? hsb)] at hinfo
  cases hinfo

/-- A super block that is not dead moves on, and keeps its data as long as it has inodes. -/
theorem setSuper (h : m.Kept) {i : Nat} {sb sb' : SuperLife} (hi : m.supers[i]? = some sb)
    (halive : sb ≠ .dead) (hinodes : ∀ x ∈ m.inodes, x.sb = i → sb'.fsInfo.isSome = true)
    {dropped : List Nat} {next : Nat}
    (haccounts : Accounted SuperLife.fsInfo (m.supers.set i sb') dropped next) :
    Kept { m with supers := m.supers.set i sb', droppedData := dropped, nextData := next } where
  safe := h.safe
  cached := h.cached
  mounted := fun _ _ _ => h.mounted sb (List.mem_of_getElem? hi) halive
  usable := by
    intro x hx
    refine ⟨(h.usable x hx).1, ?_⟩
    show ((m.supers.set i sb')[x.sb]?.bind SuperLife.fsInfo).isSome = true
    rw [sbData_set hi]
    split
    next hk => exact hinodes x hx hk
    next => exact (h.usable x hx).2
  data := haccounts
  inodeData := h.inodeData

/-- The inodes of a super block keep their data when it moves on with its own. -/
theorem inodes_of_fsInfo (h : m.Kept) {i : Nat} {sb sb' : SuperLife} (hi : m.supers[i]? = some sb)
    (hinfo : sb'.fsInfo = sb.fsInfo) : ∀ x ∈ m.inodes, x.sb = i → sb'.fsInfo.isSome = true := by
  intro x hx hk
  have hsome := (h.usable x hx).2
  rw [sbData, hk, hi, Option.bind_some] at hsome
  rw [hinfo]
  exact hsome

theorem moveSuper (h : m.Kept) {i : Nat} {sb sb' : SuperLife} (hi : m.supers[i]? = some sb)
    (halive : sb ≠ .dead) (hinfo : sb'.fsInfo = sb.fsInfo) :
    Kept { m with supers := m.supers.set i sb' } :=
  h.setSuper hi halive (h.inodes_of_fsInfo hi hinfo) (h.data.move hi hinfo)

theorem pinInit (h : m.Kept) (cache registered : Bool) : Kept (m.pinInit cache registered) := by
  unfold FsModule.pinInit
  split
  next => exact { h with cached := rfl, mounted := fun _ _ _ => rfl }
  next => exact h

theorem dropRegistration (h : m.Kept) (hdead : ∀ sb ∈ m.supers, sb = .dead) :
    Kept m.dropRegistration := by
  have hempty : m.inodes.isEmpty = true := by
    rw [h.inodes_eq_nil hdead]
    rfl
  rw [FsModule.dropRegistration, if_pos hempty]
  exact { h with cached := rfl, mounted := fun sb hsb hne => absurd (hdead sb hsb) hne }

theorem mount (h : m.Kept) (hregistered : m.registered = true) :
    Kept { m with supers := m.supers ++ [.new] } where
  safe := h.safe
  cached := h.cached
  mounted := fun _ _ _ => h.cached.trans hregistered
  usable := by
    intro x hx
    obtain ⟨hslot, hsome⟩ := h.usable x hx
    obtain ⟨d, hd⟩ := Option.isSome_iff_exists.mp hsome
    obtain ⟨sb, hsb, hinfo⟩ := Option.bind_eq_some_iff.mp hd
    obtain ⟨hlt, -⟩ := List.getElem?_eq_some_iff.mp hsb
    refine ⟨hslot, ?_⟩
    show ((m.supers ++ [.new])[x.sb]?.bind SuperLife.fsInfo).isSome = true
    rw [List.getElem?_append_left hlt]
    exact hsome
  data := h.data.concat rfl
  inodeData := h.inodeData

theorem fillSuperCallback (h : m.Kept) {i : Nat} (hi : m.supers[i]? = some .new) (ok : Bool) :
    Kept (m.fillSuperCallback i ok) := by
  cases ok with
  | true => exact h.setSuper hi nofun (fun _ _ _ => rfl) (h.data.make hi rfl rfl)
  | false => exact h.moveSuper hi nofun rfl

theorem allocInodeCallback (h : m.Kept) {i : Nat} {sb : SuperLife} (hi : m.supers[i]? = some sb)
    (hdata : sb.fsInfo.isSome = true) (alloc : Bool) : Kept (m.allocInodeCallback i alloc) := by
  have halive : sb ≠ .dead := by
    rintro rfl
    cases hdata
  rw [FsModule.allocInodeCallback, if_pos (h.mounted sb (List.mem_of_getElem? hi) halive)]
  cases alloc with
  | true =>
    refine { h with usable := fun x hx => ?_, inodeData := h.inodeData.concat rfl }
    rcases List.mem_append.mp hx with hold | hnew
    · exact h.usable x hold
    · rw [List.mem_singleton.mp hnew]
      refine ⟨nofun, ?_⟩
      show (m.supers[i]?.bind SuperLife.fsInfo).isSome = true
      rw [hi, Option.bind_some]
      exact hdata
  | false => exact h

/-- The cache is there as long as there are inodes. -/
theorem cache_of_inode (h : m.Kept) {x : SlabInode} (hx : x ∈ m.inodes) : m.inodeCache = true := by
  obtain ⟨d, hd⟩ := Option.isSome_iff_exists.mp (h.usable x hx).2
  obtain ⟨sb, hsb, hinfo⟩ := Option.bind_eq_some_iff.mp hd
  refine h.mounted sb (List.mem_of_getElem? hsb) ?_
  rintro rfl
  cases hinfo

theorem init (h : m.Kept) {j sb : Nat} (hj : m.inodes[j]? = some ⟨sb, .new⟩) :
    Kept { m with
      inodes := m.inodes.set j ⟨sb, .live m.nextInodeData⟩
      nextInodeData := m.nextInodeData + 1 } := by
  refine { h with usable := fun x hx => ?_, inodeData := h.inodeData.make hj rfl rfl }
  rcases List.mem_or_eq_of_mem_set hx with hold | rfl
  · exact h.usable x hold
  · exact ⟨nofun, (h.usable _ (List.mem_of_getElem? hj)).2⟩

theorem useData_eq (h : m.Kept) {j sb d : Nat} (hj : m.inodes[j]? = some ⟨sb, .live d⟩) :
    m.useData ⟨sb, .live d⟩ = m := by
  have hsb := (h.usable _ (List.mem_of_getElem? hj)).2
  rw [useData, hsb]
  rfl

/-- The value of an inode is dropped while the data of its super block is there. -/
theorem evict (h : m.Kept) {j sb d : Nat} (hj : m.inodes[j]? = some ⟨sb, .live d⟩) :
    Kept (m.destroyInodeCallback j ⟨sb, .live d⟩) := by
  have hmem := List.mem_of_getElem? hj
  have hsb := (h.usable _ hmem).2
  rw [destroyInodeCallback, if_pos (h.cache_of_inode hmem)]
  dsimp only at hsb ⊢
  rw [if_pos hsb]
  exact { h with
    usable := fun x hx => h.usable x (List.mem_of_mem_eraseIdx hx)
    inodeData := h.inodeData.remove hj rfl }

/-- The data of a super block is dropped when none of its inodes is left. -/
theorem reclaimData (h : m.Kept) {i : Nat} {data : Option Nat}
    (hi : m.supers[i]? = some (.killing data)) (hnone : ∀ x ∈ m.inodes, x.sb ≠ i) :
    Kept (m.reclaimData i data) := by
  cases data with
  | none => exact h.moveSuper hi nofun rfl
  | some d => exact h.setSuper hi nofun (fun x hx hk => absurd hk (hnone x hx)) (h.data.drop hi rfl rfl)

theorem step {a : FsAction} (h : m.Kept) (hloaded : m.staysLoaded a = true)
    (hinit : a.abandons = false) (hstep : m.step a = some m') : m'.Kept := by
  cases transition_of_step hstep with
  | register cache registered => exact h.pinInit cache registered
  | unregister =>
    exact h.dropRegistration fun sb hsb => of_decide_eq_true (List.all_eq_true.mp hloaded sb hsb)
  | mount hregistered => exact h.mount hregistered
  | fillSuper hi ok => exact h.fillSuperCallback hi ok
  | moveSuper _ hi halive hinfo => exact h.moveSuper hi halive hinfo
  | iget hi hdata alloc => exact h.allocInodeCallback hi hdata alloc
  | init hj => exact h.init hj
  | failed => cases hinit
  | discard => cases hinit
  | use hj =>
    rw [h.useData_eq hj]
    exact h
  | evict hj => exact h.evict hj
  | evictBad hj => exact absurd rfl (h.usable _ (List.mem_of_getElem? hj)).1
  | reclaim hi hnone => exact h.reclaimData hi hnone

end Kept

section Faults

end Faults

/-- Another thread was faster to insert the root. -/
example : (run step new [.register true true, .mount, .fillSuper 0 true, .iget 0 true,
    .discard 0]).map faulted = some true := by decide

end FsModule

end Rko
