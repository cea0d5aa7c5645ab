import Rko.CriticalSection
import Rko.Uring

namespace Rko

open CriticalSection

/-- The mutexes of the handler that its commands share. No call holds two of them at once. -/
inductive UringLock
  | queues
  | routes
  | pending
deriving DecidableEq, Repr

/-- `nextChannel` is no field of the source: a channel gets its number when its sender is stored, as
no other call knows of it before. -/
structure PendingData where
  requests : List PendingRequest
  nextChannel : Channel
deriving DecidableEq, Repr

abbrev UringLock.Data : UringLock → Type
  | .queues => Queues
  | .routes => Routes
  | .pending => PendingData

section Sections

def hasId (queueId : UInt32) (q : UInt32 × RequestQueue) : Bool := q.1 = queueId

def pushQueueSection (id maxPending : UInt32) (alloc : Bool) : Section Queues CInt := do
  if alloc then
    Section.modify fun queues => queues ++ [(id, ⟨id, maxPending, []⟩)]
    return id.toBitVec
  else return Error.ENOMEM.toErrno

def destroyQueueSection (queueId : UInt32) : Section Queues CInt := do
  match ← position id (hasId queueId) with
  | some i =>
    Section.modify fun queues => queues.eraseIdx i
    return 0
  | none => return Error.ENOENT.toErrno

def anyQueueSection (queueId : UInt32) : Section Queues Bool :=
  Option.isSome <$> position id (hasId queueId)

/-- `find` in RECV_REQUEST and `enqueue_serialized` gives a reference into the table; `i` is the
entry it refers to. -/
def modifyQueue (i : Nat) (f : RequestQueue → RequestQueue) : Section Queues Unit :=
  Section.modify fun queues => queues.modify i fun q => (q.1, f q.2)

/-- The copy to userspace is made under the lock, after the request was taken out. -/
def recvRequestSection (queueId bufLen : UInt32) (left : Nat) : Section Queues CInt := do
  match ← position id (hasId queueId) with
  | none => return Error.ENOENT.toErrno
  | some i =>
    match ← Section.read fun queues => (queues[i]?.map fun q => q.2.buffered).bind List.head? with
    | none => return Error.EAGAIN.toErrno
    | some b =>
      modifyQueue i fun q => { q with buffered := q.buffered.tail }
      if left = 0 then return BitVec.ofNat 32 (min b.data.length bufLen.toNat)
      else return Error.EFAULT.toErrno

def pushBufferedSection (queueId : UInt32) (b : BufferedRequest) (alloc : Bool) :
    Section Queues Unit := do
  match ← position id (hasId queueId) with
  | none => return ()
  | some i =>
    let room ← Section.read fun queues =>
      queues[i]?.any fun q => q.2.buffered.length.toUInt32 < q.2.maxPending
    if room && alloc then modifyQueue i fun q => { q with buffered := q.buffered ++ [b] }
    else return ()

def longer (routes : Routes) (j : Nat) : Bool :=
  match routes[j]?, routes[j + 1]? with
  | some a, some b => a.1.length < b.1.length
  | _, _ => false

def swapRoutes (routes : Routes) (j : Nat) : Routes :=
  match routes[j]?, routes[j + 1]? with
  | some a, some b => (routes.set j b).set (j + 1) a
  | _, _ => routes

/-- The inner loop of the insertion sort, comparison by comparison and swap by swap. -/
def siftSection : Nat → Section Routes Unit
  | 0 => return ()
  | j + 1 => do
    if ← Section.read fun routes => longer routes j then
      Section.modify fun routes => swapRoutes routes j
      siftSection j
    else return ()

def siftAll : List Nat → Section Routes Unit
  | [] => return ()
  | i :: is => do
    siftSection i
    siftAll is

def insertUrlSection (url : Bytes) (queueId : UInt32) (alloc : Bool) : Section Routes CInt := do
  let duplicate ← position id fun r : Bytes × UInt32 => r.1 = url
  if duplicate.isSome then return Error.EEXIST.toErrno
  if !alloc then return Error.ENOMEM.toErrno
  Section.modify fun routes => routes ++ [(url, queueId)]
  let len ← Section.read List.length
  siftAll (List.range' 1 (len - 1))
  return 0

def removeUrlSection (url : Bytes) : Section Routes CInt := do
  match ← position id fun r : Bytes × UInt32 => r.1 = url with
  | some i =>
    Section.modify fun routes => routes.eraseIdx i
    return 0
  | none => return Error.ENOENT.toErrno

def routeSection (path : Bytes) : Section Routes (Option UInt32) := do
  match ← position id fun r : Bytes × UInt32 => r.1 = ascii "/*" || r.1.isPrefixOf path with
  | none => return none
  | some i => Section.read fun routes => routes[i]?.map Prod.snd

/-- A sender that cannot be stored is dropped. -/
def storeSection (reqId : UInt64) (stored : Bool) : Section PendingData Channel :=
  .access
    (fun d => ⟨if stored then d.requests ++ [⟨reqId, d.nextChannel⟩] else d.requests,
      d.nextChannel + 1⟩)
    fun d => .ret d.nextChannel

def takeSection (reqId : UInt64) : Section PendingData (Option Channel) := do
  match ← position PendingData.requests fun p => p.reqId = reqId with
  | none => return none
  | some i =>
    .access (fun d => { d with requests := d.requests.eraseIdx i })
      fun d => .ret (d.requests[i]?.map PendingRequest.responseTx)

end Sections

section Runs

variable (queues : Queues) (routes : Routes)

theorem run_pushQueueSection (id maxPending : UInt32) (alloc : Bool) :
    (pushQueueSection id maxPending alloc).run queues = pushQueue queues id maxPending alloc := by
  cases alloc <;> rfl

theorem run_destroyQueueSection (queueId : UInt32) :
    (destroyQueueSection queueId).run queues = cmdDestroyQueue queues queueId := by
  rw [destroyQueueSection, Section.run_bind, run_position, cmdDestroyQueue]
  unfold hasId
  simp only [id_eq]
  cases queues.findIdx? fun q => q.1 = queueId <;> rfl

theorem run_removeUrlSection (url : Bytes) :
    (removeUrlSection url).run routes = cmdRemoveUrl routes url := by
  rw [removeUrlSection, Section.run_bind, run_position, cmdRemoveUrl]
  simp only [id_eq]
  cases routes.findIdx? fun r => r.1 = url <;> rfl

theorem run_anyQueueSection (queueId : UInt32) :
    (anyQueueSection queueId).run queues = (queues.any fun q => q.1 = queueId, queues) := by
  rw [anyQueueSection, Section.run_map, run_position]
  unfold hasId
  simp only [id_eq, List.findIdx?_isSome]

theorem run_routeSection (path : Bytes) :
    (routeSection path).run routes = (route routes path, routes) := by
  rw [routeSection, Section.run_bind, run_position, route, List.find?_eq_bind_findIdx?_getElem?]
  simp only [id_eq]
  cases routes.findIdx? fun r => r.1 = ascii "/*" || r.1.isPrefixOf path <;> rfl

/-- The first entry of the id is the one that changes. -/
theorem update_eq_modify {queueId : UInt32} {i : Nat} (f : RequestQueue → RequestQueue)
    (hi : queues.findIdx? (hasId queueId) = some i) :
    queues.update queueId f = queues.modify i fun q => (q.1, f q.2) := by
  induction queues generalizing i with
  | nil => cases hi
  | cons x queues ih =>
    obtain ⟨id, q⟩ := x
    rw [List.findIdx?_cons] at hi
    by_cases hid : id = queueId
    · rw [if_pos (by simpa [hasId] using hid)] at hi
      cases hi
      rw [Queues.update, if_pos hid]
      rfl
    · rw [if_neg (by simpa [hasId] using hid)] at hi
      obtain ⟨j, hj, rfl⟩ := Option.map_eq_some_iff.mp hi
      rw [Queues.update, if_neg hid, ih hj]
      rfl

theorem update_of_unknown {queueId : UInt32} (f : RequestQueue → RequestQueue)
    (hi : queues.findIdx? (hasId queueId) = none) : queues.update queueId f = queues := by
  induction queues with
  | nil => rfl
  | cons x queues ih =>
    obtain ⟨id, q⟩ := x
    rw [List.findIdx?_cons] at hi
    by_cases hid : id = queueId
    · rw [if_pos (by simpa [hasId] using hid)] at hi
      cases hi
    · rw [if_neg (by simpa [hasId] using hid), Option.map_eq_none_iff] at hi
      rw [Queues.update, if_neg hid, ih hi]

theorem find_eq_getElem? (queueId : UInt32) :
    queues.find queueId = ((queues.findIdx? (hasId queueId)).bind (queues[·]?)).map Prod.snd := by
  rw [Queues.find, List.find?_eq_bind_findIdx?_getElem?]
  rfl

theorem run_modifyQueue (i : Nat) (f : RequestQueue → RequestQueue) :
    (modifyQueue i f).run queues = ((), queues.modify i fun q => (q.1, f q.2)) := rfl

variable {queues} in
theorem modify_congr {i : Nat} (hlt : i < queues.length)
    {f g : UInt32 × RequestQueue → UInt32 × RequestQueue} (hfg : f queues[i] = g queues[i]) :
    queues.modify i f = queues.modify i g := by
  refine List.ext_getElem? fun j => ?_
  rw [List.getElem?_modify, List.getElem?_modify]
  by_cases hj : i = j
  · subst hj
    simp [List.getElem?_eq_getElem hlt, hfg]
  · simp [hj]

theorem run_recvRequestSection (queueId bufLen : UInt32) (left : Nat) :
    (recvRequestSection queueId bufLen left).run queues =
      ((cmdRecvRequest queues queueId bufLen left).1,
        (cmdRecvRequest queues queueId bufLen left).2.1) := by
  rw [recvRequestSection, Section.run_bind, run_position, cmdRecvRequest, find_eq_getElem?]
  simp only [id_eq]
  cases hi : queues.findIdx? (hasId queueId) with
  | none => rfl
  | some i =>
    have hlt : i < queues.length := (List.findIdx?_eq_some_iff_getElem.mp hi).1
    simp only [Option.bind_some, List.getElem?_eq_getElem hlt, Option.map_some, Section.run_bind,
      Section.run_read]
    cases hb : queues[i].2.buffered with
    | nil => rfl
    | cons b rest =>
      have hsame : (queues.update queueId fun q => { q with buffered := rest }) =
          queues.modify i fun q => (q.1, { q.2 with buffered := q.2.buffered.tail }) := by
        rw [update_eq_modify queues _ hi]
        apply modify_congr hlt
        rw [hb, List.tail_cons]
      simp only [List.head?_cons, Section.run_bind, run_modifyQueue, hsame]
      split <;> rfl

theorem run_pushBufferedSection (queueId : UInt32) (b : BufferedRequest) (alloc : Bool) :
    (pushBufferedSection queueId b alloc).run queues =
      ((), pushBuffered queues queueId b alloc) := by
  rw [pushBufferedSection, Section.run_bind, run_position, pushBuffered]
  simp only [id_eq]
  cases hi : queues.findIdx? (hasId queueId) with
  | none =>
    rw [update_of_unknown queues _ hi]
    rfl
  | some i =>
    have hlt : i < queues.length := (List.findIdx?_eq_some_iff_getElem.mp hi).1
    rw [update_eq_modify queues _ hi]
    simp only [Section.run_bind, Section.run_read, List.getElem?_eq_getElem hlt, Option.any_some]
    by_cases hroom : queues[i].2.buffered.length.toUInt32 < queues[i].2.maxPending ∧ alloc = true
    · rw [if_pos (by simpa using hroom), run_modifyQueue]
      refine congrArg (Prod.mk ()) (modify_congr hlt ?_)
      rw [if_pos hroom]
    · rw [if_neg (by simpa using hroom), Section.run_pure, modify_congr (g := id) hlt]
      · rw [List.modify_id]
      · rw [if_neg hroom, id]

theorem run_siftSection (j : Nat) : (siftSection j).run routes = ((), sift routes j) := by
  induction j generalizing routes with
  | zero => rfl
  | succ j ih =>
    rw [siftSection, Section.run_bind, Section.run_read, sift]
    cases ha : routes[j]? with
    | none => simp [longer, ha]
    | some a =>
      cases hb : routes[j + 1]? with
      | none => simp [longer, hb]
      | some b =>
        by_cases hlt : a.1.length < b.1.length
        · simp only [longer, ha, hb, hlt, decide_true, if_true, Section.run_bind,
            Section.run_modify, ih, swapRoutes]
        · simp [longer, ha, hb, hlt]

theorem run_siftAll (is : List Nat) : (siftAll is).run routes = ((), is.foldl sift routes) := by
  induction is generalizing routes with
  | nil => rfl
  | cons i is ih => rw [siftAll, Section.run_bind, run_siftSection, ih, List.foldl_cons]

theorem run_insertUrlSection (url : Bytes) (queueId : UInt32) (alloc : Bool) :
    (insertUrlSection url queueId alloc).run routes = insertUrl routes url queueId alloc := by
  rw [insertUrlSection, Section.run_bind, run_position, insertUrl]
  simp only [id_eq, List.findIdx?_isSome]
  cases hany : routes.any fun r => r.1 = url with
  | true => rfl
  | false =>
    cases alloc with
    | false => rfl
    | true =>
      simp only [Bool.false_eq_true, if_false, Bool.not_true, if_true, Section.run_bind,
        Section.run_modify, Section.run_read, run_siftAll, Section.run_pure, sortRoutes]

variable {d : PendingData} {reqId : UInt64}

theorem run_takeSection_none (h : takePending d.requests reqId = none) :
    (takeSection reqId).run d = (none, d) := by
  unfold takePending at h
  rw [takeSection, Section.run_bind, run_position]
  cases hi : d.requests.findIdx? fun p => p.reqId = reqId with
  | none => rfl
  | some i =>
    have hlt : i < d.requests.length := (List.findIdx?_eq_some_iff_getElem.mp hi).1
    rw [hi] at h
    simp [List.getElem?_eq_getElem hlt] at h

theorem run_takeSection_some {channel : Channel} {requests : List PendingRequest}
    (h : takePending d.requests reqId = some (channel, requests)) :
    (takeSection reqId).run d = (some channel, { d with requests }) := by
  unfold takePending at h
  rw [takeSection, Section.run_bind, run_position]
  cases hi : d.requests.findIdx? fun p => p.reqId = reqId with
  | none =>
    rw [hi] at h
    cases h
  | some i =>
    rw [hi] at h
    obtain ⟨p, hp, heq⟩ := Option.map_eq_some_iff.mp h
    cases heq
    show (d.requests[i]?.map PendingRequest.responseTx, _) = _
    rw [hp]
    rfl

end Runs

end Rko
