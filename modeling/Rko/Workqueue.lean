import Mathlib.Data.List.Nodup
import Rko.ArcHandles
import Rko.CallPool
import Rko.Regions

namespace Rko

open GuardedRun ReferenceCount CallPool Regions

/-- The size of `struct work_struct`. -/
def workSize : Nat := 32

/-- A field of type `Work<T, ID>`. -/
structure WorkField where
  id : UInt64
  offset : Nat
deriving DecidableEq

instance : Region WorkField := ⟨WorkField.offset, fun _ => workSize, fun _ => Nat.zero_lt_succ 31⟩

/-- A type `T` with its work items, and where an `ArcInner<T>` has its value. -/
structure ItemType where
  dataOffset : Nat
  size : Nat
  works : List WorkField
  dataOffset_pos : 0 < dataOffset
  ids : (works.map WorkField.id).Nodup
  inside : ∀ f ∈ works, f.offset + workSize ≤ size
  apart : works.Pairwise Apart
deriving DecidableEq

def rawGetWork (f : WorkField) (ptr : Nat) : Nat := ptr + f.offset

def workContainerOf (f : WorkField) (work : Nat) : Nat := work - f.offset

/-- An `Arc<T>`. -/
structure ItemArc where
  inner : Nat
  type : ItemType
deriving DecidableEq

def ItemArc.intoRaw (a : ItemArc) : Nat := a.inner + a.type.dataOffset

def ItemArc.fromRaw (type : ItemType) (ptr : Nat) : ItemArc := ⟨ptr - type.dataOffset, type⟩

/-- `<Arc<T> as WorkItemPointer<ID>>::run`, which `Work::init` stores in the `work_struct`. -/
structure Callback where
  type : ItemType
  field : WorkField

/-- An `ArcInner<T>` on the heap; `serial` tells apart the objects that come to lie at one
address. -/
structure Allocation where
  serial : Nat
  inner : Nat
  type : ItemType
  refcount : Refcount
deriving DecidableEq

instance : Region Allocation where
  start := Allocation.inner
  size o := o.type.dataOffset + o.type.size
  size_pos o := Nat.add_pos_left o.type.dataOffset_pos _

namespace Allocation

def work (o : Allocation) (f : WorkField) : Nat := rawGetWork f (o.inner + o.type.dataOffset)

def callback (o : Allocation) (work : Nat) : Option Callback :=
  (o.type.works.find? fun f => o.work f = work).map fun f => ⟨o.type, f⟩

end Allocation

inductive SystemQueue
  | system
  | highpri
  | long
  | unbound
deriving DecidableEq

/-- A `work_struct` with its bit PENDING set; `item` tells which field of which object it was when
it was queued. -/
structure QueuedWork where
  queue : SystemQueue
  work : Nat
  item : Nat × UInt64
deriving DecidableEq

/-- The heap with the work items on it, the `Arc` values that there are in any thread, and the
system's queues. -/
structure Workqueues where
  next : Nat
  objects : List Allocation
  arcs : List ItemArc
  queued : List QueuedWork
  accepted : List (Nat × UInt64)
  started : List (Nat × UInt64)
  freed : List Nat
  faulted : Bool

inductive WorkAction
  | new (type : ItemType) (inner : Nat)
  | clone (i : Nat)
  | drop (i : Nat)
  | enqueue (queue : SystemQueue) (i : Nat) (id : UInt64)
  | work (j : Nat)

namespace Workqueues

def new : Workqueues := ⟨0, [], [], [], [], [], [], false⟩

/-- The count or the `work_struct` at an address is used, and there is no object. -/
def fault (s : Workqueues) : Workqueues := { s with faulted := true }

def owner (s : Workqueues) (inner : Nat) : Option Allocation :=
  s.objects.find? fun o => Region.start o = inner

/-- What the kernel finds in `func`. -/
def callback (s : Workqueues) (work : Nat) : Option Callback :=
  (s.objects.find? (covers · work)).bind fun o => o.callback work

def recount (s : Workqueues) (o : Allocation) (refcount : Refcount) : Workqueues :=
  { s with objects := { o with refcount } :: s.objects.erase o }

def clone (s : Workqueues) (a : ItemArc) : Workqueues :=
  match s.owner a.inner with
  | none => s.fault
  | some o => { s.recount o o.refcount.inc with arcs := a :: s.arcs }

/-- The last reference frees the object. -/
def drop (s : Workqueues) (a : ItemArc) : Workqueues :=
  match s.owner a.inner with
  | none => s.fault
  | some o =>
    if o.refcount.decAndTest.1 then
      { s with objects := s.objects.erase o, freed := o.serial :: s.freed }
    else s.recount o o.refcount.decAndTest.2

def pending (s : Workqueues) (work : Nat) : Bool := s.queued.any fun w => w.work = work

/-- `__enqueue` with `queue_work_on`, which sets PENDING and returns false if it was set. -/
def enqueue (s : Workqueues) (queue : SystemQueue) (i : Nat) (a : ItemArc) (f : WorkField) :
    Workqueues :=
  let work := rawGetWork f a.intoRaw
  match s.owner a.inner with
  | none => s.fault
  | some o =>
    if s.pending work then s
    else
      { s with
        arcs := s.arcs.eraseIdx i
        queued := s.queued ++ [⟨queue, work, (o.serial, f.id)⟩]
        accepted := s.accepted ++ [(o.serial, f.id)] }

/-- A worker clears PENDING and calls `func`. -/
def work (s : Workqueues) (work : Nat) : Workqueues :=
  match s.callback work with
  | none => s.fault
  | some c =>
    let arc := ItemArc.fromRaw c.type (workContainerOf c.field work)
    match s.owner arc.inner with
    | none => s.fault
    | some o => { s with arcs := arc :: s.arcs, started := s.started ++ [(o.serial, c.field.id)] }

/-- The allocator gives out memory that is not in use, and code can use the `Arc` values and the
fields that there are. -/
def step (s : Workqueues) : WorkAction → Option Workqueues
  | .new type inner =>
    let o : Allocation := ⟨s.next, inner, type, ⟨1⟩⟩
    if ∀ b ∈ s.objects, Apart o b then
      some { s with next := s.next + 1, objects := o :: s.objects, arcs := ⟨inner, type⟩ :: s.arcs }
    else none
  | .clone i => s.arcs[i]?.map s.clone
  | .drop i => s.arcs[i]?.map { s with arcs := s.arcs.eraseIdx i }.drop
  | .enqueue queue i id =>
    s.arcs[i]?.bind fun a =>
      (a.type.works.find? fun f => f.id = id).map fun f => s.enqueue queue i a f
  | .work j => s.queued[j]?.map fun w => { s with queued := s.queued.eraseIdx j }.work w.work

/-- There is room in the count for one more reference. -/
def hasRoom (s : Workqueues) : WorkAction → Bool
  | .clone i => s.arcs[i]?.all fun a => (s.owner a.inner).all fun o => o.refcount.refs ≠ -1
  | _ => true

/-- The references to an object: the `Arc` values, and its work items that are queued. -/
def owners (s : Workqueues) (o : Allocation) : Nat :=
  (s.arcs.countP fun a => a.inner = o.inner) + s.queued.countP fun w => covers o w.work

/-- Every `Arc` and every queued item is a reference to an object, the counts tell how many there
are, and the runs are those of the items that were accepted and are no longer queued. -/
structure Tracked (s : Workqueues) : Prop where
  safe : s.faulted = false
  apart : s.objects.Pairwise Apart
  arcs : ∀ a ∈ s.arcs, ∃ o ∈ s.objects, o.inner = a.inner ∧ o.type = a.type
  queued : ∀ w ∈ s.queued, ∃ o ∈ s.objects, ∃ f ∈ o.type.works,
    w.work = o.work f ∧ w.item = (o.serial, f.id)
  once : (s.queued.map QueuedWork.work).Nodup
  counts : ∀ o ∈ s.objects, Counts o.refcount.refs (s.owners o) 0
  serials : (s.objects.map Allocation.serial ++ s.freed).Perm (List.range s.next)
  runs : s.accepted.Perm (s.started ++ s.queued.map QueuedWork.item)

end Workqueues

namespace Allocation

variable {o b : Allocation} {f g : WorkField}

theorem covers_work (hf : f ∈ o.type.works) : covers o (o.work f) = true := by
  have hinside := o.type.inside f hf
  have hsize : 0 < workSize := by decide
  refine covers_iff.mpr ⟨?_, ?_⟩
  · show o.inner ≤ o.inner + o.type.dataOffset + f.offset
    omega
  · show o.inner + o.type.dataOffset + f.offset < o.inner + (o.type.dataOffset + o.type.size)
    omega

theorem work_inj (hf : f ∈ o.type.works) (hg : g ∈ o.type.works) (h : o.work f = o.work g) :
    f = g := by
  have hoffset : f.offset = g.offset := Nat.add_left_cancel h
  exact eq_of_start o.type.apart hf hg hoffset

theorem callback_work (hf : f ∈ o.type.works) : o.callback (o.work f) = some ⟨o.type, f⟩ := by
  obtain ⟨g, hg⟩ : ∃ g, (o.type.works.find? fun g => o.work g = o.work f) = some g :=
    Option.isSome_iff_exists.mp (List.find?_isSome.mpr ⟨f, hf, decide_eq_true rfl⟩)
  have hwork := List.find?_some hg
  rw [callback, hg, work_inj (List.mem_of_find?_eq_some hg) hf (of_decide_eq_true hwork)]
  rfl

/-- `run` finds the `Arc` that `__enqueue` has taken. -/
theorem fromRaw_work (o : Allocation) (f : WorkField) :
    ItemArc.fromRaw o.type (workContainerOf f (o.work f)) = ⟨o.inner, o.type⟩ := by
  rw [ItemArc.fromRaw, workContainerOf, work, rawGetWork, Nat.add_sub_cancel, Nat.add_sub_cancel]

end Allocation

namespace Workqueues

section Tracked

variable {s s' : Workqueues} {o b : Allocation} {a : ItemArc} {i : Nat}

theorem tracked_new : Tracked new where
  safe := rfl
  apart := List.Pairwise.nil
  arcs := List.forall_mem_nil _
  queued := List.forall_mem_nil _
  once := List.nodup_nil
  counts := List.forall_mem_nil _
  serials := List.Perm.refl _
  runs := List.Perm.refl _

theorem Tracked.owner_of_arc (h : Tracked s) (ha : a ∈ s.arcs) :
    ∃ o ∈ s.objects, s.owner a.inner = some o ∧ o.inner = a.inner ∧ o.type = a.type := by
  obtain ⟨o, ho, hinner, htype⟩ := h.arcs a ha
  refine ⟨o, ho, ?_, hinner, htype⟩
  rw [← hinner]
  exact find?_start h.apart ho

theorem Tracked.apart_cons (h : Tracked s) (ho : o ∈ s.objects) :
    (o :: s.objects.erase o).Pairwise Apart :=
  (List.perm_cons_erase ho).pairwise h.apart Or.symm

theorem Tracked.apart_of_erase (h : Tracked s) (ho : o ∈ s.objects) (hb : b ∈ s.objects.erase o) :
    Apart o b :=
  (List.pairwise_cons.mp (h.apart_cons ho)).1 b hb

theorem inner_ne_of_apart (h : Apart o b) : o.inner ≠ b.inner := by
  intro heq
  have hcovers := h.not_covers (covers_start o)
  have hstart : Region.start o = Region.start b := heq
  rw [hstart, covers_start] at hcovers
  cases hcovers

/-- An item of one object is a reference to that object and to no other. -/
theorem Tracked.covers_work (h : Tracked s) (ho : o ∈ s.objects) (hb : b ∈ s.objects)
    {f : WorkField} (hf : f ∈ o.type.works) :
    covers b (o.work f) = decide (o.inner = b.inner) := by
  rw [Bool.eq_iff_iff, decide_eq_true_iff]
  constructor
  · intro hcovers
    rw [eq_of_covers h.apart ho hb (Allocation.covers_work hf) hcovers]
  · intro hinner
    rw [← eq_of_start h.apart ho hb hinner]
    exact Allocation.covers_work hf

theorem Tracked.alloc (h : Tracked s) (type : ItemType) (inner : Nat)
    (hapart : ∀ b ∈ s.objects, Apart (⟨s.next, inner, type, ⟨1⟩⟩ : Allocation) b) :
    Tracked { s with
      next := s.next + 1
      objects := ⟨s.next, inner, type, ⟨1⟩⟩ :: s.objects
      arcs := ⟨inner, type⟩ :: s.arcs } := by
  obtain ⟨o, ho⟩ : ∃ o : Allocation, o = ⟨s.next, inner, type, ⟨1⟩⟩ := ⟨_, rfl⟩
  rw [← ho] at hapart ⊢
  have hinner : inner = o.inner := by rw [ho]
  have hnoArc : (s.arcs.countP fun a => a.inner = o.inner) = 0 := by
    refine List.countP_eq_zero.mpr fun a ha => ?_
    obtain ⟨b, hb, hba, -⟩ := h.arcs a ha
    rw [decide_eq_true_iff, ← hba]
    exact (inner_ne_of_apart (hapart b hb)).symm
  have hnoWork : (s.queued.countP fun w => covers o w.work) = 0 := by
    refine List.countP_eq_zero.mpr fun w hw => ?_
    obtain ⟨b, hb, f, hf, hwork, -⟩ := h.queued w hw
    rw [hwork, Bool.not_eq_true]
    exact Apart.not_covers (Or.symm (hapart b hb)) (Allocation.covers_work hf)
  refine ⟨h.safe, List.pairwise_cons.mpr ⟨hapart, h.apart⟩, ?_, ?_, h.once, ?_, ?_, h.runs⟩
  · intro a ha
    rcases List.mem_cons.mp ha with hnew | hold
    · refine ⟨o, List.mem_cons_self, ?_⟩
      rw [hnew, ho]
      exact ⟨rfl, rfl⟩
    · obtain ⟨b, hb, hsame⟩ := h.arcs a hold
      exact ⟨b, List.mem_cons_of_mem o hb, hsame⟩
  · intro w hw
    obtain ⟨b, hb, hitem⟩ := h.queued w hw
    exact ⟨b, List.mem_cons_of_mem o hb, hitem⟩
  · intro b hb
    simp only [owners, List.countP_cons]
    rcases List.mem_cons.mp hb with hnew | hold
    · rw [hnew, hnoArc, hnoWork, if_pos (decide_eq_true hinner), ho]
      exact ⟨rfl, by decide, rfl⟩
    · have hne : ¬ decide (inner = b.inner) = true := by
        rw [decide_eq_true_iff, hinner]
        exact inner_ne_of_apart (hapart b hold)
      rw [if_neg hne]
      exact h.counts b hold
  · rw [List.range_succ, List.map_cons, List.cons_append, ho]
    exact (h.serials.cons s.next).trans (List.perm_append_singleton s.next _).symm

theorem mem_recount {r : Refcount} (hb : b ∈ s.objects) :
    ∃ c ∈ (s.recount o r).objects, c.serial = b.serial ∧ c.inner = b.inner ∧ c.type = b.type := by
  by_cases heq : b = o
  · exact ⟨{ o with refcount := r }, List.mem_cons_self, by rw [heq], by rw [heq], by rw [heq]⟩
  · have herase : b ∈ s.objects.erase o := (List.mem_erase_of_ne heq).mpr hb
    exact ⟨b, List.mem_cons_of_mem _ herase, rfl, rfl, rfl⟩

/-- The `Arc` values of one object have changed, and its count with them. -/
theorem Tracked.recount (h : Tracked s) (ho : o ∈ s.objects) {r : Refcount} {arcs : List ItemArc}
    (harcs : ∀ a ∈ arcs, a ∈ s.arcs)
    (hself : Counts r.refs (owners { s with arcs } o) 0)
    (hothers : ∀ b ∈ s.objects.erase o, owners { s with arcs } b = owners s b) :
    Tracked { s.recount o r with arcs } := by
  refine ⟨h.safe, ?_, ?_, ?_, h.once, ?_, ?_, h.runs⟩
  · have hrest := (List.pairwise_cons.mp (h.apart_cons ho)).2
    exact List.pairwise_cons.mpr ⟨fun b hb => (h.apart_of_erase ho hb : Apart o b), hrest⟩
  · intro a ha
    obtain ⟨b, hb, hinner, htype⟩ := h.arcs a (harcs a ha)
    obtain ⟨c, hc, -, hci, hct⟩ := mem_recount (o := o) (r := r) hb
    exact ⟨c, hc, hci.trans hinner, hct.trans htype⟩
  · intro w hw
    obtain ⟨b, hb, f, hf, hwork, hitem⟩ := h.queued w hw
    obtain ⟨c, hc, hcs, hci, hct⟩ := mem_recount (o := o) (r := r) hb
    refine ⟨c, hc, f, hct ▸ hf, ?_, by rw [hcs, hitem]⟩
    rw [hwork, Allocation.work, Allocation.work, hci, hct]
  · intro b hb
    rcases List.mem_cons.mp hb with hnew | hold
    · rw [hnew]
      exact hself
    · have hcount := h.counts b (List.mem_of_mem_erase hold)
      rw [← hothers b hold] at hcount
      exact hcount
  · have hperm := (List.perm_cons_erase ho).map Allocation.serial
    exact (hperm.symm.append_right s.freed).trans h.serials

theorem Tracked.clone (h : Tracked s) (ha : a ∈ s.arcs)
    (hroom : ∀ o, s.owner a.inner = some o → o.refcount.refs ≠ -1) : Tracked (s.clone a) := by
  obtain ⟨o, ho, howner, hinner, -⟩ := h.owner_of_arc ha
  have hcounts := h.counts o ho
  have hpos : 0 < s.owners o := by
    have hmem : 0 < s.arcs.countP fun a => a.inner = o.inner :=
      List.countP_pos_iff.mpr ⟨a, ha, decide_eq_true hinner.symm⟩
    exact Nat.add_pos_left hmem _
  have hbound : s.owners o + 1 < 2 ^ 32 := by
    refine Nat.lt_of_le_of_ne hcounts.bound fun hlast => hroom o howner ?_
    have hmax : s.owners o = 2 ^ 32 - 1 := by omega
    rw [hcounts.count_eq, hmax]
    decide
  rw [Workqueues.clone, howner]
  refine h.recount ho (fun b hb => ?_) ?_ fun b hb => ?_
  · rcases List.mem_cons.mp hb with rfl | hold
    · exact ha
    · exact hold
  · have hnext : owners { s with arcs := a :: s.arcs } o = s.owners o + 1 := by
      simp only [owners, List.countP_cons, hinner, decide_true, if_true]
      omega
    rw [hnext]
    exact hcounts.inc hpos hbound
  · have hne : ¬ decide (a.inner = b.inner) = true := by
      rw [decide_eq_true_iff, ← hinner]
      exact inner_ne_of_apart (h.apart_of_erase ho hb)
    simp only [owners, List.countP_cons, if_neg hne, Nat.add_zero]

theorem Tracked.drop (h : Tracked s) (ha : s.arcs[i]? = some a) :
    Tracked ({ s with arcs := s.arcs.eraseIdx i }.drop a) := by
  obtain ⟨o, ho, howner, hinner, -⟩ := h.owner_of_arc (List.mem_of_getElem? ha)
  have howner' : ({ s with arcs := s.arcs.eraseIdx i } : Workqueues).owner a.inner = some o := howner
  have hself : s.owners o = owners { s with arcs := s.arcs.eraseIdx i } o + 1 := by
    have hcount := countP_eraseIdx ha fun a => a.inner = o.inner
    rw [if_pos (decide_eq_true hinner.symm)] at hcount
    simp only [owners, ← hcount]
    omega
  have hothers : ∀ b ∈ s.objects.erase o,
      owners { s with arcs := s.arcs.eraseIdx i } b = s.owners b := by
    intro b hb
    have hne : a.inner ≠ b.inner := hinner ▸ inner_ne_of_apart (h.apart_of_erase ho hb)
    have hcount := countP_eraseIdx ha fun a => a.inner = b.inner
    simp only [hne, decide_false] at hcount
    simp only [owners, ← hcount]
    rfl
  have hcounts := h.counts o ho
  rw [hself] at hcounts
  have hdec := hcounts.dec (by decide)
  have harcs : ∀ b ∈ s.arcs.eraseIdx i, b ∈ s.arcs := fun b hb => List.mem_of_mem_eraseIdx hb
  rw [Workqueues.drop, howner']
  simp only [Refcount.decAndTest, decide_eq_true_eq]
  split
  next hlast =>
    rw [if_pos hlast] at hdec
    have hnone : owners { s with arcs := s.arcs.eraseIdx i } o = 0 := by
      by_contra hsome
      have := hdec.frees_eq
      rw [if_neg hsome] at this
      omega
    have hzero := Nat.add_eq_zero_iff.mp hnone
    refine ⟨h.safe, (List.pairwise_cons.mp (h.apart_cons ho)).2, ?_, ?_, h.once, ?_, ?_, h.runs⟩
    · intro b hb
      obtain ⟨c, hc, hci, hct⟩ := h.arcs b (harcs b hb)
      have hne : c ≠ o := by
        intro heq
        exact List.countP_eq_zero.mp hzero.1 b hb (decide_eq_true (by rw [← hci, heq]))
      exact ⟨c, (List.mem_erase_of_ne hne).mpr hc, hci, hct⟩
    · intro w hw
      obtain ⟨c, hc, f, hf, hwork, hitem⟩ := h.queued w hw
      have hne : c ≠ o := by
        intro heq
        refine List.countP_eq_zero.mp hzero.2 w hw ?_
        rw [hwork, ← heq]
        exact Allocation.covers_work hf
      exact ⟨c, (List.mem_erase_of_ne hne).mpr hc, f, hf, hwork, hitem⟩
    · intro b hb
      have hcount := h.counts b (List.mem_of_mem_erase hb)
      rw [← hothers b hb] at hcount
      exact hcount
    · have hperm := (List.perm_cons_erase ho).map Allocation.serial
      exact List.perm_middle.trans ((hperm.symm.append_right s.freed).trans h.serials)
  next hmore =>
    rw [if_neg hmore] at hdec
    exact h.recount ho harcs hdec hothers

theorem Tracked.enqueue (h : Tracked s) (queue : SystemQueue) (ha : s.arcs[i]? = some a)
    {f : WorkField} (hf : f ∈ a.type.works) : Tracked (s.enqueue queue i a f) := by
  obtain ⟨o, ho, howner, hinner, htype⟩ := h.owner_of_arc (List.mem_of_getElem? ha)
  have hf' : f ∈ o.type.works := htype ▸ hf
  have hwork : rawGetWork f a.intoRaw = o.work f := by
    rw [Allocation.work, ItemArc.intoRaw, hinner, htype]
  simp only [Workqueues.enqueue, howner, hwork]
  split
  next => exact h
  next hidle =>
    have hfresh : ∀ w ∈ s.queued, w.work ≠ o.work f := by
      intro w hw heq
      exact hidle (List.any_eq_true.mpr ⟨w, hw, decide_eq_true heq⟩)
    refine ⟨h.safe, h.apart, fun b hb => h.arcs b (List.mem_of_mem_eraseIdx hb), ?_, ?_, ?_,
      h.serials, ?_⟩
    · intro w hw
      rcases List.mem_append.mp hw with hold | hnew
      · exact h.queued w hold
      · rw [List.mem_singleton.mp hnew]
        exact ⟨o, ho, f, hf', rfl, rfl⟩
    · rw [List.map_append]
      refine List.nodup_append.mpr ⟨h.once, List.nodup_singleton _, fun p hp q hq => ?_⟩
      obtain ⟨w, hw, rfl⟩ := List.mem_map.mp hp
      rw [List.mem_singleton.mp hq]
      exact hfresh w hw
    · intro b hb
      -- What the object loses as an `Arc` it gains as an item in a queue.
      have hcount := countP_eraseIdx ha fun a => a.inner = b.inner
      have hcovers := h.covers_work ho hb hf'
      have hsame : owners { s with
          arcs := s.arcs.eraseIdx i
          queued := s.queued ++ [⟨queue, o.work f, (o.serial, f.id)⟩]
          accepted := s.accepted ++ [(o.serial, f.id)] } b = s.owners b := by
        simp only [owners, List.countP_append, List.countP_singleton, hcovers, hinner, ← hcount]
        omega
      rw [hsame]
      exact h.counts b hb
    · rw [List.map_append, ← List.append_assoc]
      exact h.runs.append_right _

theorem Tracked.work (h : Tracked s) {j : Nat} {w : QueuedWork} (hw : s.queued[j]? = some w) :
    Tracked ({ s with queued := s.queued.eraseIdx j }.work w.work) := by
  obtain ⟨o, ho, f, hf, hwork, hitem⟩ := h.queued w (List.mem_of_getElem? hw)
  have hcallback : ({ s with queued := s.queued.eraseIdx j } : Workqueues).callback w.work =
      some ⟨o.type, f⟩ := by
    rw [callback, hwork]
    show (s.objects.find? (covers · (o.work f))).bind _ = _
    rw [find?_covers h.apart ho (Allocation.covers_work hf)]
    exact Allocation.callback_work hf
  have howner : ({ s with queued := s.queued.eraseIdx j } : Workqueues).owner o.inner = some o :=
    find?_start h.apart ho
  have hperm : (s.queued.map QueuedWork.item).Perm
      (w.item :: (s.queued.eraseIdx j).map QueuedWork.item) := by
    obtain ⟨hj, rfl⟩ := List.getElem?_eq_some_iff.mp hw
    exact (List.getElem_cons_eraseIdx_perm hj).symm.map QueuedWork.item
  rw [Workqueues.work, hcallback]
  simp only [hwork, Allocation.fromRaw_work, howner]
  refine ⟨h.safe, h.apart, ?_, fun v hv => h.queued v (List.mem_of_mem_eraseIdx hv), ?_, ?_,
    h.serials, ?_⟩
  · intro a ha
    rcases List.mem_cons.mp ha with rfl | hold
    · exact ⟨o, ho, rfl, rfl⟩
    · exact h.arcs a hold
  · exact h.once.sublist ((List.eraseIdx_sublist _ j).map _)
  · intro b hb
    have hcount := countP_eraseIdx hw fun w => covers b w.work
    have hcovers := h.covers_work ho hb hf
    have hsame : owners { s with
        arcs := ⟨o.inner, o.type⟩ :: s.arcs
        queued := s.queued.eraseIdx j
        started := s.started ++ [(o.serial, f.id)] } b = s.owners b := by
      simp only [owners, List.countP_cons, ← hcount, hwork, hcovers]
      omega
    rw [hsame]
    exact h.counts b hb
  · rw [← hitem, List.append_assoc]
    exact h.runs.trans (hperm.append_left _)

theorem Tracked.step (h : Tracked s) {action : WorkAction} (hroom : s.hasRoom action = true)
    (hstep : s.step action = some s') : Tracked s' := by
  cases action with
  | new type inner =>
    obtain ⟨hapart, hs'⟩ := Option.ite_none_right_eq_some.mp hstep
    cases hs'
    exact h.alloc type inner hapart
  | clone i =>
    obtain ⟨a, ha, rfl⟩ := Option.map_eq_some_iff.mp hstep
    refine h.clone (List.mem_of_getElem? ha) fun o ho => ?_
    simp only [hasRoom, ha, ho, Option.all_some, decide_eq_true_eq] at hroom
    exact hroom
  | drop i =>
    obtain ⟨a, ha, rfl⟩ := Option.map_eq_some_iff.mp hstep
    exact h.drop ha
  | enqueue queue i id =>
    obtain ⟨a, ha, hstep⟩ := Option.bind_eq_some_iff.mp hstep
    obtain ⟨f, hf, rfl⟩ := Option.map_eq_some_iff.mp hstep
    exact h.enqueue queue ha (List.mem_of_find?_eq_some hf)
  | work j =>
    obtain ⟨w, hw, rfl⟩ := Option.map_eq_some_iff.mp hstep
    exact h.work hw

theorem Tracked.items_nodup (h : Tracked s) : (s.queued.map QueuedWork.item).Nodup := by
  have hserials : (s.objects.map Allocation.serial).Nodup :=
    (List.nodup_append.mp (h.serials.nodup_iff.mpr List.nodup_range)).1
  refine List.Nodup.map_on (fun v hv w hw hitem => ?_) h.once.of_map
  obtain ⟨o, ho, f, hf, hvwork, hvitem⟩ := h.queued v hv
  obtain ⟨b, hb, g, hg, hwwork, hwitem⟩ := h.queued w hw
  rw [hvitem, hwitem, Prod.mk.injEq] at hitem
  obtain rfl := List.inj_on_of_nodup_map hserials ho hb hitem.1
  obtain rfl := List.inj_on_of_nodup_map o.type.ids hf hg hitem.2
  exact List.inj_on_of_nodup_map h.once hv hw (hvwork.trans hwwork.symm)

end Tracked

/-- In every interleaving of allocations at any free address, clones, drops, enqueues and worker
runs, no freed object is used, every count is the number of the object's references, each object is
freed once, when there are none, and the runs are those of the accepted items, each once and with
its own object. -/
theorem accepted_work_runs_once {actions : List WorkAction} {s : Workqueues}
    (hroom : Guarded step (fun s a => s.hasRoom a = true) new actions)
    (hrun : run step new actions = some s) :
    s.faulted = false ∧
      (∀ o ∈ s.objects, 0 < s.owners o ∧ o.refcount.refs = BitVec.ofNat 32 (s.owners o)) ∧
      (s.objects.map Allocation.serial ++ s.freed).Perm (List.range s.next) ∧
      s.accepted.Perm (s.started ++ s.queued.map QueuedWork.item) ∧
      (s.queued.map QueuedWork.item).Nodup := by
  have h : Tracked s := run_invariant (fun h hroom hstep => h.step hroom hstep) tracked_new hroom hrun
  refine ⟨h.safe, fun o ho => ?_, h.serials, h.runs, h.items_nodup⟩
  have hcounts := h.counts o ho
  refine ⟨Nat.pos_of_ne_zero fun hzero => ?_, hcounts.count_eq⟩
  have hfrees := hcounts.frees_eq
  rw [if_pos hzero] at hfrees
  cases hfrees

def twoFields : List WorkField := [⟨0, 0⟩, ⟨1, 32⟩]

theorem twoFields_ids : (twoFields.map WorkField.id).Nodup := by decide

theorem twoFields_inside : ∀ f ∈ twoFields, f.offset + workSize ≤ 64 := by decide

theorem twoFields_apart : twoFields.Pairwise Apart := by decide

/-- A type with two work items, one behind the other. -/
def twoWorks : ItemType :=
  ⟨8, 64, twoFields, Nat.zero_lt_succ 7, twoFields_ids, twoFields_inside, twoFields_apart⟩

/-- One object's items are queued and run, the first of them twice, and its memory is used again. -/
def queuedTwice : List WorkAction :=
  [.new twoWorks 4096, .clone 0, .clone 0, .enqueue .system 0 0, .enqueue .highpri 0 0,
    .enqueue .unbound 0 1, .work 0, .drop 1, .enqueue .system 0 0, .work 1, .drop 0, .work 0,
    .drop 0, .new twoWorks 4096, .enqueue .system 0 1]

theorem accepted_work_runs_once_queuedTwice :
    ∃ s, run step new queuedTwice = some s ∧ s.freed = [0] ∧ s.started = [(0, 0), (0, 0), (0, 1)] ∧
      s.accepted.Perm (s.started ++ s.queued.map QueuedWork.item) := by
  have hroom : Guarded step (fun s a => s.hasRoom a = true) new queuedTwice := by decide +kernel
  exact ⟨_, rfl, rfl, rfl, (accepted_work_runs_once hroom rfl).2.2.2.1⟩

end Workqueues

end Rko
