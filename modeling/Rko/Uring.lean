import Rko.HttpMessage

namespace Rko

/-- The two halves of a oneshot channel are known by the number of the channel. -/
abbrev Channel := Nat

structure PendingRequest where
  reqId : UInt64
  responseTx : Channel
deriving DecidableEq, Repr

/-- `origin` is no field of the source: it tells for which request the data was made. -/
structure BufferedRequest where
  reqId : UInt64
  data : Bytes
  origin : Channel
deriving DecidableEq, Repr

structure RequestQueue where
  id : UInt32
  maxPending : UInt32
  buffered : List BufferedRequest
deriving DecidableEq, Repr

structure CmdSendResponse where
  reqId : UInt64
  statusCode : UInt16
  bodyLen : UInt32
  bufAddr : UInt64
deriving DecidableEq, Repr

def leBytes : Nat → Nat → Bytes
  | 0, _ => []
  | n + 1, v => v.toUInt8 :: leBytes n (v / 256)

def methodToU8 : Method → Nat
  | .get => 0
  | .head => 1
  | .post => 2
  | .put => 3
  | .delete => 4
  | .options => 5
  | .patch => 6

def versionToU8 : Version → Nat
  | .http10 => 10
  | .http11 => 11

def requestHdrSize : Nat := 24
def headerEntrySize : Nat := 4

def serializedLen (request : Request) : Nat :=
  requestHdrSize + request.path.length +
    (request.headers.map fun h => headerEntrySize + h.1.length + h.2.length).sum +
    request.body.length

/-- The narrowing casts of the source keep the low bytes, as `leBytes` does. -/
def serializeHeaders (headers : Headers) : Bytes :=
  headers.flatMap fun h => leBytes 2 h.1.length ++ leBytes 2 h.2.length ++ h.1 ++ h.2

def serializeRequest (reqId : UInt64) (request : Request) : Bytes :=
  leBytes 8 reqId.toNat ++ leBytes 1 (methodToU8 request.method) ++
    leBytes 1 (versionToU8 request.version) ++ leBytes 2 request.headers.length ++
    leBytes 4 request.path.length ++ leBytes 4 request.body.length ++
    leBytes 4 (serializedLen request) ++ request.path ++ serializeHeaders request.headers ++
    request.body

abbrev Queues := List (UInt32 × RequestQueue)

abbrev Routes := List (Bytes × UInt32)

def Queues.find (queues : Queues) (queueId : UInt32) : Option RequestQueue :=
  (queues.find? fun q => q.1 = queueId).map Prod.snd

def Queues.update (queueId : UInt32) (f : RequestQueue → RequestQueue) : Queues → Queues
  | [] => []
  | (id, q) :: queues =>
    if id = queueId then (id, f q) :: queues else (id, q) :: Queues.update queueId f queues

namespace Queues

variable {queues : Queues} {queueId : UInt32} {f : RequestQueue → RequestQueue}

theorem find_cons (id : UInt32) (q : RequestQueue) (queues : Queues) (queueId : UInt32) :
    find ((id, q) :: queues) queueId = if id = queueId then some q else find queues queueId := by
  by_cases hid : id = queueId <;> simp [find, hid]

theorem mem_update_of_find {q : RequestQueue} (h : find queues queueId = some q) :
    (queueId, f q) ∈ update queueId f queues := by
  induction queues with
  | nil => cases h
  | cons x queues ih =>
    obtain ⟨id, q₀⟩ := x
    rw [find_cons] at h
    split at h
    next hid =>
      cases h
      simp [update, hid]
    next hid =>
      simp only [update, if_neg hid]
      exact List.mem_cons_of_mem _ (ih h)

variable (queueId f) in
/-- Every queue but the one found stays as it is. -/
theorem mem_update {q : UInt32 × RequestQueue} (hq : q ∈ queues) :
    q ∈ update queueId f queues ∨
      find queues queueId = some q.2 ∧ (q.1, f q.2) ∈ update queueId f queues := by
  induction queues with
  | nil => cases hq
  | cons x queues ih =>
    obtain ⟨id, q₀⟩ := x
    rw [find_cons]
    by_cases hid : id = queueId
    · simp only [update, if_pos hid]
      rcases List.mem_cons.mp hq with rfl | hmem
      · exact Or.inr ⟨rfl, List.mem_cons_self⟩
      · exact Or.inl (List.mem_cons_of_mem _ hmem)
    · simp only [update, if_neg hid]
      rcases List.mem_cons.mp hq with rfl | hmem
      · exact Or.inl List.mem_cons_self
      · rcases ih hmem with hsame | ⟨hfind, hchanged⟩
        · exact Or.inl (List.mem_cons_of_mem _ hsame)
        · exact Or.inr ⟨hfind, List.mem_cons_of_mem _ hchanged⟩

end Queues

def pushQueue (queues : Queues) (id maxPending : UInt32) (alloc : Bool) : CInt × Queues :=
  if alloc then (id.toBitVec, queues ++ [(id, ⟨id, maxPending, []⟩)])
  else (Error.ENOMEM.toErrno, queues)

def cmdDestroyQueue (queues : Queues) (queueId : UInt32) : CInt × Queues :=
  match queues.findIdx? fun q => q.1 = queueId with
  | some i => (0, queues.eraseIdx i)
  | none => (Error.ENOENT.toErrno, queues)

theorem mem_cmdDestroyQueue {queues : Queues} {q : UInt32 × RequestQueue} (hq : q ∈ queues)
    (queueId : UInt32) :
    q ∈ (cmdDestroyQueue queues queueId).2 ∨ queues.find queueId = some q.2 := by
  unfold cmdDestroyQueue Queues.find
  rw [List.find?_eq_bind_findIdx?_getElem?]
  cases hidx : queues.findIdx? fun q => q.1 = queueId with
  | none => exact Or.inl hq
  | some i =>
    obtain ⟨j, hj⟩ := List.mem_iff_getElem?.mp hq
    by_cases hij : j = i
    · subst hij
      exact Or.inr (by simp [hj])
    · exact Or.inl (List.mem_eraseIdx_iff_getElem?.mpr ⟨j, hij, hj⟩)

/-- The inner loop of the insertion sort: the entry at `j` moves forward past shorter ones. -/
def sift (routes : Routes) : Nat → Routes
  | 0 => routes
  | j + 1 =>
    match routes[j]?, routes[j + 1]? with
    | some a, some b =>
      if a.1.length < b.1.length then sift ((routes.set j b).set (j + 1) a) j else routes
    | _, _ => routes

def sortRoutes (routes : Routes) : Routes :=
  (List.range' 1 (routes.length - 1)).foldl sift routes

def insertUrl (routes : Routes) (url : Bytes) (queueId : UInt32) (alloc : Bool) : CInt × Routes :=
  if routes.any fun r => r.1 = url then (Error.EEXIST.toErrno, routes)
  else if alloc then (0, sortRoutes (routes ++ [(url, queueId)]))
  else (Error.ENOMEM.toErrno, routes)

def cmdRemoveUrl (routes : Routes) (url : Bytes) : CInt × Routes :=
  match routes.findIdx? fun r => r.1 = url with
  | some i => (0, routes.eraseIdx i)
  | none => (Error.ENOENT.toErrno, routes)

/-- The longest prefix comes first, so the wildcard is only reached when no longer one matches. -/
def route (routes : Routes) (path : Bytes) : Option UInt32 :=
  (routes.find? fun r => r.1 = ascii "/*" || r.1.isPrefixOf path).map Prod.snd

/-- RECV_REQUEST, when `copy_to_user` leaves `left` bytes uncopied: the result, the queues and the
request taken out of its queue. -/
def cmdRecvRequest (queues : Queues) (queueId bufLen : UInt32) (left : Nat) :
    CInt × Queues × Option BufferedRequest :=
  match queues.find queueId with
  | none => (Error.ENOENT.toErrno, queues, none)
  | some q =>
    match q.buffered with
    | [] => (Error.EAGAIN.toErrno, queues, none)
    | b :: rest =>
      (if left = 0 then BitVec.ofNat 32 (min b.data.length bufLen.toNat) else Error.EFAULT.toErrno,
        queues.update queueId fun q => { q with buffered := rest }, some b)

def takePending (pending : List PendingRequest) (reqId : UInt64) :
    Option (Channel × List PendingRequest) :=
  match pending.findIdx? fun p => p.reqId = reqId with
  | none => none
  | some i => (pending[i]?).map fun p => (p.responseTx, pending.eraseIdx i)

theorem takePending_subset {pending pending' : List PendingRequest} {reqId : UInt64}
    {channel : Channel} (h : takePending pending reqId = some (channel, pending')) :
    ∀ p ∈ pending', p ∈ pending := by
  unfold takePending at h
  split at h
  · cases h
  next i _ =>
    obtain ⟨_, _, heq⟩ := Option.map_eq_some_iff.mp h
    cases heq
    exact fun p hp => List.mem_of_mem_eraseIdx hp

/-- The second step of SEND_RESPONSE: the response is sent, or the sender is dropped with an error.
`memory` is what userspace stored, of which `left` bytes cannot be read. -/
def respond (payload : CmdSendResponse) (memory : UInt64 → UInt8) (left : Nat) (alloc : Bool) :
    Except Error Response :=
  if 0 < payload.bodyLen ∧ payload.bufAddr ≠ 0 then
    if !alloc then .error Error.ENOMEM
    else if left ≠ 0 then .error Error.EFAULT
    else .ok ⟨payload.statusCode, .http11, [],
      (List.range payload.bodyLen.toNat).map fun k => memory (payload.bufAddr + k.toUInt64)⟩
  else .ok ⟨payload.statusCode, .http11, [], []⟩

def pushBuffered (queues : Queues) (queueId : UInt32) (b : BufferedRequest) (alloc : Bool) :
    Queues :=
  queues.update queueId fun q =>
    if q.buffered.length.toUInt32 < q.maxPending ∧ alloc then
      { q with buffered := q.buffered ++ [b] }
    else q

end Rko
