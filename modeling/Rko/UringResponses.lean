import Mathlib.Data.List.Nodup
import Rko.CallPool
import Rko.UringDelivery
import Rko.UringQueues

namespace Rko

open GuardedRun CallPool

/-- The id of a request for which no channel exists yet. -/
def UringTask.unopened : UringTask → Option UInt64
  | .routing _ reqId => some reqId
  | .enqueueing _ reqId _ => some reqId
  | _ => none

/-- The request that `enqueue_serialized` is about to buffer, with its channel. -/
def UringTask.carried : UringTask → Option (UInt64 × Channel)
  | .buffering _ reqId _ channel => some (reqId, channel)
  | _ => none

/-- The request that a SEND_RESPONSE has taken and is about to answer. -/
def UringTask.answering : UringTask → Option (UInt64 × Channel)
  | .responding channel payload => some (payload.reqId, channel)
  | _ => none

def PendingRequest.entry (p : PendingRequest) : UInt64 × Channel := (p.reqId, p.responseTx)

def BufferedRequest.entry (b : BufferedRequest) : UInt64 × Channel := (b.reqId, b.origin)

namespace UringState

def unopened (s : UringState) : List UInt64 := s.tasks.filterMap UringTask.unopened

def carried (s : UringState) : List (UInt64 × Channel) := s.tasks.filterMap UringTask.carried

def answering (s : UringState) : List (UInt64 × Channel) := s.tasks.filterMap UringTask.answering

def entries (s : UringState) : List (UInt64 × Channel) := s.pending.map PendingRequest.entry

end UringState

def Queues.entries (queues : Queues) : List (UInt64 × Channel) :=
  queues.flatMap fun q => q.2.buffered.map BufferedRequest.entry

/-- The response that SEND_RESPONSE makes of its payload and of the memory of the caller. -/
def replyTo (payload : CmdSendResponse) (memory : UInt64 → UInt8) : Response :=
  ⟨payload.statusCode, .http11, [],
    if 0 < payload.bodyLen ∧ payload.bufAddr ≠ 0 then
      (List.range payload.bodyLen.toNat).map fun k => memory (payload.bufAddr + k.toUInt64)
    else []⟩

theorem respond_ok {payload : CmdSendResponse} {memory : UInt64 → UInt8} {left : Nat} {alloc : Bool}
    {response : Response} (h : respond payload memory left alloc = .ok response) :
    response = replyTo payload memory := by
  unfold respond at h
  split at h
  next hbody =>
    rw [replyTo, if_pos hbody]
    split at h
    · cases h
    · split at h
      · cases h
      · exact (Except.ok.inj h).symm
  next hbody =>
    rw [replyTo, if_neg hbody]
    exact (Except.ok.inj h).symm

theorem respond_error_cases {payload : CmdSendResponse} {memory : UInt64 → UInt8} {left : Nat}
    {alloc : Bool} {e : Error} (h : respond payload memory left alloc = .error e) :
    e = Error.ENOMEM ∨ e = Error.EFAULT := by
  unfold respond at h
  split at h
  · split at h
    · exact Or.inl (Except.error.inj h).symm
    · split at h
      · exact Or.inr (Except.error.inj h).symm
      · cases h
  · cases h

theorem respond_error {payload : CmdSendResponse} {memory : UInt64 → UInt8} {left : Nat}
    {alloc : Bool} {e : Error} (h : respond payload memory left alloc = .error e) :
    e.toErrno ≠ 0 := by
  rcases respond_error_cases h with rfl | rfl <;> decide

/-- How a SEND_RESPONSE ended. -/
inductive Completion
  | unknown (payload : CmdSendResponse)
  | failed (payload : CmdSendResponse) (error : Error)
  | sent (payload : CmdSendResponse) (memory : UInt64 → UInt8) (channel : Channel)

namespace Completion

def reqId : Completion → UInt64
  | unknown payload => payload.reqId
  | failed payload _ => payload.reqId
  | sent payload _ _ => payload.reqId

/-- The value that the command returns. -/
def code : Completion → CInt
  | unknown _ => Error.ENOENT.toErrno
  | failed _ e => e.toErrno
  | sent _ _ _ => 0

def entry : Completion → Option (UInt64 × Channel)
  | sent payload _ channel => some (payload.reqId, channel)
  | _ => none

def delivery : Completion → Option (Channel × Response)
  | sent payload memory channel => some (channel, replyTo payload memory)
  | _ => none

end Completion

/-- The handler with a history of its run: the channels created for the requests with their ids, the
ids that a RECV_REQUEST took out of a queue, the entries that a SEND_RESPONSE found, and how the
SEND_RESPONSE commands ended. -/
structure Audit where
  state : UringState
  arrivals : Nat
  created : List (UInt64 × Channel)
  received : List UInt64
  taken : List (UInt64 × Channel)
  completed : List Completion

namespace Audit

def new : Audit := ⟨UringState.new, 0, [], [], [], []⟩

def recordStore (x : Audit) (i : Nat) (channel : Bool) : Audit :=
  match x.state.tasks[i]? with
  | some (.enqueueing _ reqId _) =>
    if channel then { x with created := (reqId, x.state.nextChannel) :: x.created } else x
  | _ => x

def recordRecv (x : Audit) (queueId bufLen : UInt32) (left : Nat) : Audit :=
  match (cmdRecvRequest x.state.queues queueId bufLen left).2.2 with
  | some b => { x with received := b.reqId :: x.received }
  | none => x

def recordSend (x : Audit) (payload : CmdSendResponse) : Audit :=
  match takePending x.state.pending payload.reqId with
  | some (channel, _) => { x with taken := (payload.reqId, channel) :: x.taken }
  | none => { x with completed := x.completed ++ [.unknown payload] }

def recordRespond (x : Audit) (i : Nat) (memory : UInt64 → UInt8) (left : Nat) (alloc : Bool) :
    Audit :=
  match x.state.tasks[i]? with
  | some (.responding channel payload) =>
    match respond payload memory left alloc with
    | .ok _ => { x with completed := x.completed ++ [.sent payload memory channel] }
    | .error e => { x with completed := x.completed ++ [.failed payload e] }
  | _ => x

def record (x : Audit) : UringAction → Audit
  | .arrive _ => { x with arrivals := x.arrivals + 1 }
  | .storePending i channel _ => x.recordStore i channel
  | .recvRequest queueId bufLen left => x.recordRecv queueId bufLen left
  | .sendResponse payload => x.recordSend payload
  | .respond i memory left alloc => x.recordRespond i memory left alloc
  | _ => x

/-- A step of the handler, which is also written down. -/
def step (x : Audit) (a : UringAction) : Option Audit :=
  (x.state.step a).map fun s => { x.record a with state := s }

/-- Writing the history does not interfere with the run. -/
theorem run_state (x : Audit) (as : List UringAction) :
    (run step x as).map Audit.state = run UringState.step x.state as := by
  induction as generalizing x with
  | nil => rfl
  | cons a as ih =>
    rw [run, run, step]
    cases x.state.step a with
    | none => rfl
    | some s => exact ih { x.record a with state := s }

end Audit

/-- A step that answers nothing and opens nothing: requests may only leave the handler. -/
structure UringState.Frame (s s' : UringState) : Prop where
  nextReqId : s'.nextReqId = s.nextReqId
  nextChannel : s'.nextChannel = s.nextChannel
  pending : s'.pending = s.pending
  sent : s'.sent = s.sent
  unopened : s'.unopened.Subperm s.unopened
  carried : ∀ c ∈ s'.carried, c ∈ s.carried
  buffered : ∀ c ∈ s'.queues.entries, c ∈ s.queues.entries ∨ c ∈ s.carried
  answering : s'.answering.Subperm s.answering

namespace UringState

variable {s s' : UringState} {i : Nat} {t t' : UringTask}

theorem unopened_start (s : UringState) (t : UringTask) :
    (s.start t).unopened = s.unopened ++ t.unopened.toList :=
  filterMap_concat UringTask.unopened s.tasks t

theorem carried_start (s : UringState) (t : UringTask) :
    (s.start t).carried = s.carried ++ t.carried.toList :=
  filterMap_concat UringTask.carried s.tasks t

theorem answering_start (s : UringState) (t : UringTask) :
    (s.start t).answering = s.answering ++ t.answering.toList :=
  filterMap_concat UringTask.answering s.tasks t

theorem Frame.of_tables {queues : Queues} (h : ∀ c ∈ queues.entries, c ∈ s.queues.entries)
    (routes : Routes) : Frame s { s with queues, routes } :=
  ⟨rfl, rfl, rfl, rfl, List.Subperm.refl _, fun _ hc => hc, fun c hc => Or.inl (h c hc),
    List.Subperm.refl _⟩

theorem Frame.start (hunopened : t.unopened = none) (hcarried : t.carried = none)
    (hanswering : t.answering = none) (nextQueueId : UInt32) :
    Frame s { s.start t with nextQueueId } := by
  have hun := unopened_start s t
  have hcar := carried_start s t
  have hans := answering_start s t
  rw [hunopened, Option.toList_none, List.append_nil] at hun
  rw [hcarried, Option.toList_none, List.append_nil] at hcar
  rw [hanswering, Option.toList_none, List.append_nil] at hans
  exact ⟨rfl, rfl, rfl, rfl, (List.Perm.of_eq hun).subperm, fun c hc => hcar ▸ hc,
    fun _ hc => Or.inl hc, (List.Perm.of_eq hans).subperm⟩

/-- Ending a call takes at most its own entry out of each projection. -/
theorem Frame.finish (s : UringState) (i : Nat) : Frame s (s.finish i) := by
  have hsub : (s.finish i).tasks.Sublist s.tasks := List.eraseIdx_sublist _ _
  exact ⟨rfl, rfl, rfl, rfl, (hsub.filterMap _).subperm, fun c hc => (hsub.filterMap _).subset hc,
    fun _ hc => Or.inl hc, (hsub.filterMap _).subperm⟩

theorem Frame.trans {s'' : UringState} (h : Frame s s') (h' : Frame s' s'') : Frame s s'' where
  nextReqId := h'.nextReqId.trans h.nextReqId
  nextChannel := h'.nextChannel.trans h.nextChannel
  pending := h'.pending.trans h.pending
  sent := h'.sent.trans h.sent
  unopened := h'.unopened.trans h.unopened
  carried := fun c hc => h.carried c (h'.carried c hc)
  buffered := fun c hc => by
    rcases h'.buffered c hc with hc | hc
    · exact h.buffered c hc
    · exact Or.inr (h.carried c hc)
  answering := h'.answering.trans h.answering

theorem Frame.advance (ht : s.tasks[i]? = some t) (hunopened : t'.unopened = t.unopened)
    (hcarried : t'.carried = none) (hanswering : t'.answering = none) : Frame s (s.advance i t') := by
  have hun := filterMap_set UringTask.unopened ht t'
  rw [hunopened, List.perm_append_left_iff] at hun
  exact ⟨rfl, rfl, rfl, rfl, hun.subperm,
    fun _ hc => (filterMap_set_subperm UringTask.carried ht hcarried).subset hc,
    fun _ hc => Or.inl hc, filterMap_set_subperm UringTask.answering ht hanswering⟩

theorem Frame.route {request : Request} {reqId : UInt64}
    (ht : s.tasks[i]? = some (.routing request reqId)) (alloc : Bool) :
    Frame s (s.stepRoute i request reqId alloc) :=
  stepRoute_cases request reqId alloc (Frame.finish s i) fun _ => Frame.advance ht rfl rfl rfl

end UringState

section Entries

variable {queues : Queues} {c : UInt64 × Channel}

theorem Queues.mem_entries :
    c ∈ queues.entries ↔ ∃ q ∈ queues, ∃ b ∈ q.2.buffered, b.entry = c := by
  simp [Queues.entries, List.mem_flatMap]

theorem Queues.entries_cons (id : UInt32) (q : RequestQueue) (queues : Queues) :
    Queues.entries ((id, q) :: queues) = q.buffered.map BufferedRequest.entry ++ queues.entries :=
  rfl

theorem Queues.entries_mono {queues' : Queues} (h : ∀ q ∈ queues', q ∈ queues)
    (hc : c ∈ queues'.entries) : c ∈ queues.entries := by
  obtain ⟨q, hq, hb⟩ := Queues.mem_entries.mp hc
  exact Queues.mem_entries.mpr ⟨q, h q hq, hb⟩

theorem Queues.entries_update {queueId : UInt32} {f : RequestQueue → RequestQueue}
    (hc : c ∈ (Queues.update queueId f queues).entries) :
    c ∈ queues.entries ∨ ∃ q, queues.find queueId = some q ∧ ∃ b ∈ (f q).buffered, b.entry = c := by
  induction queues with
  | nil => exact Or.inl hc
  | cons x queues ih =>
    obtain ⟨id, q⟩ := x
    rw [Queues.update] at hc
    rw [Queues.find_cons, Queues.entries_cons]
    split at hc
    next hid =>
      rw [Queues.entries_cons] at hc
      rcases List.mem_append.mp hc with hc | hc
      · exact Or.inr ⟨q, if_pos hid, List.mem_map.mp hc⟩
      · exact Or.inl (List.mem_append_right _ hc)
    next hid =>
      rw [Queues.entries_cons] at hc
      rw [if_neg hid]
      rcases List.mem_append.mp hc with hc | hc
      · exact Or.inl (List.mem_append_left _ hc)
      · exact (ih hc).imp_left (List.mem_append_right _)

theorem Queues.mem_entries_of_find {queueId : UInt32} {q : RequestQueue} {b : BufferedRequest}
    (hfind : queues.find queueId = some q) (hb : b ∈ q.buffered) : b.entry ∈ queues.entries := by
  obtain ⟨x, hx, rfl⟩ := Option.map_eq_some_iff.mp hfind
  exact Queues.mem_entries.mpr ⟨x, List.mem_of_find?_eq_some hx, b, hb, rfl⟩

theorem entries_pushBuffered {queueId : UInt32} {b : BufferedRequest} {alloc : Bool}
    (hc : c ∈ (pushBuffered queues queueId b alloc).entries) : c ∈ queues.entries ∨ c = b.entry := by
  rcases Queues.entries_update hc with hc | ⟨q, hfind, b', hb', rfl⟩
  · exact Or.inl hc
  · split at hb'
    · rcases List.mem_append.mp hb' with hb' | hb'
      · exact Or.inl (Queues.mem_entries_of_find hfind hb')
      · cases List.mem_singleton.mp hb'
        exact Or.inr rfl
    · exact Or.inl (Queues.mem_entries_of_find hfind hb')

theorem entries_pushQueue {id maxPending : UInt32} {alloc : Bool}
    (hc : c ∈ (pushQueue queues id maxPending alloc).2.entries) : c ∈ queues.entries := by
  cases alloc with
  | false => exact hc
  | true =>
    obtain ⟨q, hq, b, hb, heq⟩ := Queues.mem_entries.mp hc
    rcases List.mem_append.mp hq with hq | hq
    · exact Queues.mem_entries.mpr ⟨q, hq, b, hb, heq⟩
    · cases List.mem_singleton.mp hq
      cases hb

theorem entries_cmdDestroyQueue {queueId : UInt32}
    (hc : c ∈ (cmdDestroyQueue queues queueId).2.entries) : c ∈ queues.entries := by
  refine Queues.entries_mono (fun q hq => ?_) hc
  rw [cmdDestroyQueue_eq] at hq
  exact List.mem_of_mem_eraseP hq

theorem entries_cmdRecvRequest {queueId bufLen : UInt32} {left : Nat}
    (hc : c ∈ (cmdRecvRequest queues queueId bufLen left).2.1.entries) : c ∈ queues.entries := by
  unfold cmdRecvRequest at hc
  split at hc
  · exact hc
  next q hfind =>
    split at hc
    · exact hc
    next b rest hbuffered =>
      rcases Queues.entries_update hc with hc | ⟨q', hfind', b', hb', rfl⟩
      · exact hc
      · cases hfind.symm.trans hfind'
        exact Queues.mem_entries_of_find hfind (hbuffered ▸ List.mem_cons_of_mem b hb')

theorem mem_entries_of_cmdRecvRequest {queueId bufLen : UInt32} {left : Nat} {b : BufferedRequest}
    (hb : (cmdRecvRequest queues queueId bufLen left).2.2 = some b) : b.entry ∈ queues.entries := by
  unfold cmdRecvRequest at hb
  split at hb
  · cases hb
  next q hfind =>
    split at hb
    · cases hb
    next b' rest hbuffered =>
      cases Option.some.inj hb
      exact Queues.mem_entries_of_find hfind (hbuffered ▸ List.mem_cons_self)

end Entries

theorem UringState.Frame.recv (s : UringState) (queueId bufLen : UInt32) (left : Nat) :
    s.Frame (s.stepRecv queueId bufLen left) := by
  have hentries : ∀ c ∈ (s.stepRecv queueId bufLen left).queues.entries, c ∈ s.queues.entries := by
    intro c hc
    rw [stepRecv_queues] at hc
    exact entries_cmdRecvRequest hc
  obtain ⟨delivered, hrecv⟩ := s.stepRecv_eq queueId bufLen left
  rw [hrecv] at hentries ⊢
  exact ⟨rfl, rfl, rfl, rfl, List.Subperm.refl _, fun _ hc => hc,
    fun c hc => Or.inl (hentries c hc), List.Subperm.refl _⟩

theorem UringState.Frame.buffer {s : UringState} {i : Nat} {queueId : UInt32} {reqId : UInt64}
    {data : Bytes} {channel : Channel} (ht : s.tasks[i]? = some (.buffering queueId reqId data channel))
    (alloc : Bool) :
    s.Frame { s.finish i with
      queues := pushBuffered s.queues queueId ⟨reqId, data, channel⟩ alloc } := by
  refine { Frame.finish s i with buffered := fun c hc => ?_ }
  rcases entries_pushBuffered hc with hc | rfl
  · exact Or.inl hc
  · exact Or.inr (List.mem_filterMap.mpr ⟨_, List.mem_of_getElem? ht, rfl⟩)

theorem takePending_perm {pending pending' : List PendingRequest} {reqId : UInt64}
    {channel : Channel} (h : takePending pending reqId = some (channel, pending')) :
    (⟨reqId, channel⟩ :: pending').Perm pending := by
  unfold takePending at h
  split at h
  next => cases h
  next i hidx =>
    obtain ⟨hi, hid, -⟩ := List.findIdx?_eq_some_iff_getElem.mp hidx
    rw [List.getElem?_eq_getElem hi] at h
    cases Option.some.inj h
    have hentry : (⟨reqId, pending[i].responseTx⟩ : PendingRequest) = pending[i] := by
      rw [← of_decide_eq_true hid]
    rw [hentry]
    exact List.getElem_cons_eraseIdx_perm hi

theorem takePending_isSome {pending : List PendingRequest} {reqId : UInt64}
    (h : reqId ∈ pending.map PendingRequest.reqId) : (takePending pending reqId).isSome = true := by
  obtain ⟨p, hp, rfl⟩ := List.mem_map.mp h
  unfold takePending
  split
  next hidx =>
    have := List.findIdx?_eq_none_iff.mp hidx p hp
    simp at this
  next i hidx =>
    obtain ⟨hi, -, -⟩ := List.findIdx?_eq_some_iff_getElem.mp hidx
    simp [List.getElem?_eq_getElem hi]

namespace Audit

/-- The history accounts for everything: an id belongs to one request, which is still without a
channel or has one; an entry with a channel is pending or was taken; and what was or will be answered
was taken. -/
structure Matched (x : Audit) : Prop where
  next : x.state.nextReqId = UInt64.ofNat (x.arrivals + 1)
  ids_le : ∀ id ∈ x.state.unopened ++ x.created.map Prod.fst, id.toNat ≤ x.arrivals
  ids : (x.state.unopened ++ x.created.map Prod.fst).Nodup
  channels_lt : ∀ c ∈ x.created, c.2 < x.state.nextChannel
  channels : (x.created.map Prod.snd).Nodup
  split : (x.state.entries ++ x.taken).Perm x.created
  carried : ∀ c ∈ x.state.carried, c ∈ x.created
  buffered : ∀ c ∈ x.state.queues.entries, c ∈ x.created
  received : ∀ id ∈ x.received, id ∈ x.created.map Prod.fst
  answers : (x.state.answering ++ x.completed.filterMap Completion.entry).Subperm x.taken
  sent : x.state.sent = x.completed.filterMap Completion.delivery
  failed : ∀ c ∈ x.completed, c.code = 0 → c.entry.isSome = true

namespace Matched

open UringState

variable {x : Audit}

theorem new : Matched Audit.new := by
  constructor <;> simp [Audit.new, UringState.new, UringState.unopened, UringState.entries,
    UringState.carried, UringState.answering, Queues.entries]

theorem frame (h : Matched x) {s : UringState} (hf : x.state.Frame s) :
    Matched { x with state := s } where
  next := hf.nextReqId.trans h.next
  ids_le := fun id hid => h.ids_le id
    ((hf.unopened.append (List.Subperm.refl _)).subset hid)
  ids := nodup_of_subperm (hf.unopened.append (List.Subperm.refl _)) h.ids
  channels_lt := fun c hc => hf.nextChannel ▸ h.channels_lt c hc
  channels := h.channels
  split := by
    have hentries : s.entries = x.state.entries :=
      congrArg (List.map PendingRequest.entry) hf.pending
    exact hentries ▸ h.split
  carried := fun c hc => h.carried c (hf.carried c hc)
  buffered := fun c hc => (hf.buffered c hc).elim (h.buffered c) (h.carried c)
  received := h.received
  answers := (hf.answering.append (List.Subperm.refl _)).trans h.answers
  sent := hf.sent.trans h.sent
  failed := h.failed

theorem arrive (h : Matched x) (request : Request) (hlt : x.arrivals + 1 < 2 ^ 64) :
    Matched { x with
      arrivals := x.arrivals + 1
      state := { x.state.start (.routing request x.state.nextReqId) with
        nextReqId := x.state.nextReqId + 1 } } := by
  have hunopened := unopened_start x.state (.routing request x.state.nextReqId)
  have hcarried : (x.state.start (.routing request x.state.nextReqId)).carried = x.state.carried :=
    (carried_start x.state _).trans (List.append_nil _)
  have hanswering : (x.state.start (.routing request x.state.nextReqId)).answering =
      x.state.answering := (answering_start x.state _).trans (List.append_nil _)
  have hnat : x.state.nextReqId.toNat = x.arrivals + 1 := by
    rw [h.next, UInt64.toNat_ofNat', Nat.mod_eq_of_lt hlt]
  have hperm : (x.state.unopened ++ [x.state.nextReqId] ++ x.created.map Prod.fst).Perm
      (x.state.nextReqId :: (x.state.unopened ++ x.created.map Prod.fst)) := by
    rw [List.append_assoc]
    exact List.perm_middle
  refine { h with next := ?_, ids_le := ?_, ids := ?_, carried := ?_, answers := ?_ }
  · rw [h.next]
    exact (UInt64.ofNat_add _ 1).symm
  · intro id hid
    rcases List.mem_cons.mp (hperm.subset (hunopened ▸ hid)) with rfl | hid
    · exact hnat.le
    · exact (h.ids_le id hid).trans (Nat.le_succ _)
  · refine (hunopened ▸ hperm).nodup_iff.mpr (List.nodup_cons.mpr ⟨fun hid => ?_, h.ids⟩)
    have := h.ids_le _ hid
    omega
  · exact fun c hc => h.carried c (hcarried ▸ hc)
  · exact hanswering ▸ h.answers

theorem storePending (h : Matched x) {i : Nat} {queueId : UInt32} {reqId : UInt64} {data : Bytes}
    (htask : x.state.tasks[i]? = some (.enqueueing queueId reqId data)) :
    Matched { x with
      created := (reqId, x.state.nextChannel) :: x.created
      state := x.state.stepStore i queueId reqId data true true } := by
  have hunopened : (reqId :: (x.state.advance i (.buffering queueId reqId data
      x.state.nextChannel)).unopened).Perm x.state.unopened :=
    filterMap_set UringTask.unopened htask _
  have hcarried : ((x.state.advance i (.buffering queueId reqId data
      x.state.nextChannel)).carried).Perm ((reqId, x.state.nextChannel) :: x.state.carried) :=
    filterMap_set UringTask.carried htask _
  have hanswering : ((x.state.advance i (.buffering queueId reqId data
      x.state.nextChannel)).answering).Perm x.state.answering :=
    filterMap_set UringTask.answering htask _
  have hperm := List.perm_middle.trans (hunopened.append_right (x.created.map Prod.fst))
  refine ⟨h.next, fun id hid => h.ids_le id (hperm.subset hid), hperm.nodup_iff.mpr h.ids, ?_, ?_, ?_,
    ?_, ?_, ?_, ?_, h.sent, h.failed⟩
  · intro c hc
    rcases List.mem_cons.mp hc with rfl | hc
    · exact Nat.lt_succ_self _
    · exact (h.channels_lt c hc).trans (Nat.lt_succ_self _)
  · refine List.nodup_cons.mpr ⟨fun hmem => ?_, h.channels⟩
    obtain ⟨c, hc, heq⟩ := List.mem_map.mp hmem
    exact absurd heq (h.channels_lt c hc).ne
  · have hentries : (x.state.stepStore i queueId reqId data true true).entries =
        x.state.entries ++ [(reqId, x.state.nextChannel)] := List.map_append
    rw [hentries, List.append_assoc]
    exact List.perm_middle.trans (h.split.cons _)
  · intro c hc
    rcases List.mem_cons.mp (hcarried.subset hc) with rfl | hc
    · exact List.mem_cons_self
    · exact List.mem_cons_of_mem _ (h.carried c hc)
  · exact fun c hc => List.mem_cons_of_mem _ (h.buffered c hc)
  · exact fun id hid => List.mem_cons_of_mem _ (h.received id hid)
  · exact (hanswering.append_right _).subperm.trans h.answers

theorem recvRequest (h : Matched x) (queueId bufLen : UInt32) (left : Nat) :
    Matched { x.recordRecv queueId bufLen left with
      state := x.state.stepRecv queueId bufLen left } := by
  have hstate := h.frame (Frame.recv x.state queueId bufLen left)
  unfold recordRecv
  split
  next b hb =>
    refine { hstate with received := fun id hid => ?_ }
    rcases List.mem_cons.mp hid with rfl | hid
    · exact List.mem_map_of_mem (h.buffered _ (mem_entries_of_cmdRecvRequest hb))
    · exact h.received id hid
  next => exact hstate

/-- A SEND_RESPONSE that fails sends nothing. -/
theorem unanswered (h : Matched x) {c : Completion} (hentry : c.entry = none)
    (hdelivery : c.delivery = none) (hcode : c.code ≠ 0) :
    Matched { x with completed := x.completed ++ [c] } := by
  refine { h with answers := ?_, sent := ?_, failed := ?_ }
  · rw [filterMap_concat, hentry, Option.toList_none, List.append_nil]
    exact h.answers
  · rw [filterMap_concat, hdelivery, Option.toList_none, List.append_nil]
    exact h.sent
  · intro c' hc' hcode'
    rcases List.mem_append.mp hc' with hc' | hc'
    · exact h.failed c' hc' hcode'
    · cases List.mem_singleton.mp hc'
      exact absurd hcode' hcode

theorem sendResponse (h : Matched x) {payload : CmdSendResponse} {channel : Channel}
    {pending : List PendingRequest}
    (htake : takePending x.state.pending payload.reqId = some (channel, pending)) :
    Matched { x with
      taken := (payload.reqId, channel) :: x.taken
      state := { x.state.start (.responding channel payload) with pending } } := by
  have hunopened : (x.state.start (.responding channel payload)).unopened = x.state.unopened :=
    (unopened_start x.state _).trans (List.append_nil _)
  have hcarried : (x.state.start (.responding channel payload)).carried = x.state.carried :=
    (carried_start x.state _).trans (List.append_nil _)
  have hanswering := answering_start x.state (.responding channel payload)
  have hentries : ((payload.reqId, channel) :: pending.map PendingRequest.entry).Perm
      x.state.entries := (takePending_perm htake).map PendingRequest.entry
  refine { h with ids_le := ?_, ids := ?_, split := ?_, carried := ?_, answers := ?_ }
  · exact fun id hid => h.ids_le id (hunopened ▸ hid)
  · exact hunopened ▸ h.ids
  · exact (List.perm_middle.trans (hentries.append_right _)).trans h.split
  · exact fun c hc => h.carried c (hcarried ▸ hc)
  · have hperm : ((x.state.start (.responding channel payload)).answering ++
        x.completed.filterMap Completion.entry).Perm ((payload.reqId, channel) ::
          (x.state.answering ++ x.completed.filterMap Completion.entry)) := by
      rw [hanswering, List.append_assoc]
      exact List.perm_middle
    exact hperm.subperm.trans ((List.subperm_cons _).mpr h.answers)

theorem respondSent (h : Matched x) {i : Nat} {channel : Channel} {payload : CmdSendResponse}
    (htask : x.state.tasks[i]? = some (.responding channel payload)) (memory : UInt64 → UInt8) :
    Matched { x with
      completed := x.completed ++ [.sent payload memory channel]
      state := { x.state.finish i with
        sent := x.state.sent ++ [(channel, replyTo payload memory)] } } := by
  have hanswering : ((payload.reqId, channel) :: (x.state.finish i).answering).Perm
      x.state.answering := filterMap_eraseIdx UringTask.answering htask
  have hframe := h.frame (Frame.finish x.state i)
  refine { hframe with answers := ?_, sent := ?_, failed := ?_ }
  · have hperm : ((x.state.finish i).answering ++ (x.completed.filterMap Completion.entry ++
        [(payload.reqId, channel)])).Perm
          (x.state.answering ++ x.completed.filterMap Completion.entry) := by
      rw [← List.append_assoc]
      exact (List.perm_append_singleton _ _).trans (hanswering.append_right _)
    rw [filterMap_concat]
    exact hperm.subperm.trans h.answers
  · rw [filterMap_concat, ← h.sent]
    rfl
  · intro c hc hcode
    rcases List.mem_append.mp hc with hc | hc
    · exact h.failed c hc hcode
    · cases List.mem_singleton.mp hc
      rfl

theorem step (h : Matched x) {x' : Audit} {a : UringAction} (halloc : a.allocates = true)
    (hlt : x'.arrivals < 2 ^ 64) (hstep : x.step a = some x') : Matched x' := by
  obtain ⟨s, hs, rfl⟩ := Option.map_eq_some_iff.mp hstep
  cases transition_of_step hs with
  | arrive request => exact h.arrive request hlt
  | route alloc htask => exact h.frame (Frame.route htask alloc)
  | storePending channel alloc htask =>
    obtain ⟨rfl, rfl⟩ := Bool.and_eq_true_iff.mp halloc
    simp only [record, recordStore, htask, if_true]
    exact h.storePending htask
  | buffer alloc htask => exact h.frame (Frame.buffer htask alloc)
  | createQueue maxPending => exact h.frame (Frame.start rfl rfl rfl _)
  | pushQueue alloc htask =>
    exact h.frame ((Frame.finish x.state _).trans
      (Frame.of_tables (fun _ hc => entries_pushQueue hc) x.state.routes))
  | destroyQueue queueId =>
    exact h.frame (Frame.of_tables (fun _ hc => entries_cmdDestroyQueue hc) _)
  | addUrl url hqueue => exact h.frame (Frame.start rfl rfl rfl _)
  | refuseUrl queueId url alloc => exact h
  | insertUrl alloc htask => exact h.frame { Frame.finish x.state _ with }
  | removeUrl url => exact h.frame (Frame.of_tables (fun _ hc => hc) _)
  | recvRequest queueId bufLen left => exact h.recvRequest queueId bufLen left
  | sendUnknown hnone =>
    simp only [record, recordSend, hnone]
    exact h.unanswered rfl rfl (by decide : Error.ENOENT.toErrno ≠ 0)
  | sendResponse htake =>
    simp only [record, recordSend, htake]
    exact h.sendResponse htake
  | respond memory left alloc htask =>
    simp only [record, recordRespond, htask]
    cases hreply : Rko.respond _ memory left alloc with
    | ok response =>
      cases respond_ok hreply
      exact h.respondSent htask memory
    | error e => exact (h.frame (Frame.finish x.state _)).unanswered rfl rfl (respond_error hreply)

theorem created_ids (h : Matched x) : (x.created.map Prod.fst).Nodup :=
  h.ids.sublist (List.sublist_append_right _ _)

theorem taken_subperm (h : Matched x) : x.taken.Subperm x.created :=
  (List.sublist_append_right _ _).subperm.trans h.split.subperm

theorem answered_subperm (h : Matched x) :
    (x.completed.filterMap Completion.entry).Subperm x.created :=
  ((List.sublist_append_right _ _).subperm.trans h.answers).trans h.taken_subperm

theorem pending_ids (h : Matched x) : (x.state.pending.map PendingRequest.reqId).Nodup := by
  have hsub : x.state.entries.Subperm x.created :=
    (List.sublist_append_left _ _).subperm.trans h.split.subperm
  have hids := nodup_map_of_subperm hsub h.created_ids
  rwa [UringState.entries, List.map_map] at hids

theorem found (h : Matched x) {id : UInt64} (hid : id ∈ x.received)
    (htaken : id ∉ x.taken.map Prod.fst) : (takePending x.state.pending id).isSome = true := by
  obtain ⟨c, hc, rfl⟩ := List.mem_map.mp (h.received id hid)
  rcases List.mem_append.mp (h.split.symm.subset hc) with hpending | hc
  · obtain ⟨p, hp, rfl⟩ := List.mem_map.mp hpending
    exact takePending_isSome (List.mem_map_of_mem hp)
  · exact absurd (List.mem_map_of_mem hc) htaken

end Matched

theorem Completion.sent_of_entry {c : Completion} (h : c.entry.isSome = true) :
    ∃ payload memory channel, c = .sent payload memory channel := by
  cases c with
  | unknown payload => cases h
  | failed payload e => cases h
  | sent payload memory channel => exact ⟨payload, memory, channel, rfl⟩

/-- The ids of the commands that return 0 are those of the entries that were answered. -/
theorem Completion.ids_of_success {completed : List Completion}
    (h : ∀ c ∈ completed, c.code = 0 → c.entry.isSome = true) :
    (completed.filter fun c => c.code = 0).map Completion.reqId =
      (completed.filterMap Completion.entry).map Prod.fst := by
  induction completed with
  | nil => rfl
  | cons c completed ih =>
    have hrest := ih fun c' hc' => h c' (List.mem_cons_of_mem _ hc')
    by_cases hcode : c.code = 0
    · obtain ⟨payload, memory, channel, rfl⟩ := sent_of_entry (h c List.mem_cons_self hcode)
      rw [List.filter_cons_of_pos (by simpa using hcode), filterMap_cons, List.map_cons, hrest]
      rfl
    · have hentry : c.entry = none := by
        cases c with
        | unknown payload => rfl
        | failed payload e => rfl
        | sent payload memory channel => exact absurd rfl hcode
      rw [List.filter_cons_of_neg (by simpa using hcode), List.filterMap_cons_none hentry, hrest]

theorem arrivals_le {x x' : Audit} {a : UringAction} (h : x.step a = some x') :
    x.arrivals ≤ x'.arrivals := by
  obtain ⟨s, -, rfl⟩ := Option.map_eq_some_iff.mp h
  cases a with
  | arrive request => exact Nat.le_succ _
  | storePending i channel alloc =>
    simp only [record, recordStore]
    split
    · split <;> exact le_rfl
    · exact le_rfl
  | recvRequest queueId bufLen left =>
    simp only [record, recordRecv]
    split <;> exact le_rfl
  | sendResponse payload =>
    simp only [record, recordSend]
    split <;> exact le_rfl
  | respond i memory left alloc =>
    simp only [record, recordRespond]
    split
    · split <;> exact le_rfl
    · exact le_rfl
  | _ => exact le_rfl

theorem matched_of_run {as : List UringAction} {x : Audit}
    (halloc : ∀ a ∈ as, a.allocates = true) (hrun : run step Audit.new as = some x)
    (hlt : x.arrivals < 2 ^ 64) : Matched x := by
  have hinv : ∀ {x x' : Audit} {a : UringAction}, (x.arrivals < 2 ^ 64 → Matched x) →
      a.allocates = true → x.step a = some x' → x'.arrivals < 2 ^ 64 → Matched x' :=
    fun hx halloc hstep hlt' => (hx ((arrivals_le hstep).trans_lt hlt')).step halloc hlt' hstep
  exact run_invariant hinv (fun _ => Matched.new) (guarded_of_forall halloc Audit.new) hrun hlt

/-- Every response is matched with the one request that was given its id. -/
theorem responses_matched {as : List UringAction} {x : Audit}
    (halloc : ∀ a ∈ as, a.allocates = true) (hrun : run step Audit.new as = some x)
    (hlt : x.arrivals < 2 ^ 64) :
    run UringState.step UringState.new as = some x.state ∧
      (x.state.pending.map PendingRequest.reqId).Nodup ∧
      (∀ id ∈ x.received, id ∉ x.taken.map Prod.fst →
        (takePending x.state.pending id).isSome = true) ∧
      ((x.completed.filter fun c => c.code = 0).map Completion.reqId).Nodup ∧
      (∀ c ∈ x.completed, c.code = 0 → ∃ payload memory channel,
        c = .sent payload memory channel ∧ (payload.reqId, channel) ∈ x.created ∧
          ∀ e ∈ x.created, e.1 = payload.reqId ↔ e.2 = channel) ∧
      x.state.sent = x.completed.filterMap Completion.delivery := by
  have hstate := run_state Audit.new as
  rw [hrun] at hstate
  have h := matched_of_run halloc hrun hlt
  refine ⟨hstate.symm, h.pending_ids, fun _ => h.found, ?_, ?_, h.sent⟩
  · rw [Completion.ids_of_success h.failed]
    exact nodup_map_of_subperm h.answered_subperm h.created_ids
  · intro c hc hcode
    obtain ⟨payload, memory, channel, rfl⟩ := Completion.sent_of_entry (h.failed c hc hcode)
    have hentry : (payload.reqId, channel) ∈ x.created :=
      h.answered_subperm.subset (List.mem_filterMap.mpr ⟨_, hc, rfl⟩)
    refine ⟨payload, memory, channel, rfl, hentry, fun e he => ⟨fun hid => ?_, fun hchannel => ?_⟩⟩
    · exact congrArg Prod.snd (List.inj_on_of_nodup_map h.created_ids he hentry hid)
    · exact congrArg Prod.fst (List.inj_on_of_nodup_map h.channels he hentry hchannel)

def answeredTwice : List UringAction :=
  UringState.oneBuffered ++ [.recvRequest 1 4096 0, .sendResponse ⟨1, 200, 0, 0⟩,
    .sendResponse ⟨1, 500, 0, 0⟩, .respond 0 (fun _ => 0) 0 true]

theorem responses_matched_answeredTwice :
    ∃ x, run step Audit.new answeredTwice = some x ∧ x.received = [1] ∧
      x.state.sent = [(0, ⟨200, .http11, [], []⟩)] ∧ x.completed.map Completion.code = [-2, 0] ∧
      ((x.completed.filter fun c => c.code = 0).map Completion.reqId).Nodup ∧
      ∀ c ∈ x.completed, c.code = 0 → ∃ payload memory channel,
        c = .sent payload memory channel ∧ (payload.reqId, channel) ∈ x.created ∧
          ∀ e ∈ x.created, e.1 = payload.reqId ↔ e.2 = channel := by
  have halloc : ∀ a ∈ answeredTwice, a.allocates = true := by decide
  obtain ⟨-, -, -, hcodes, hsent, -⟩ := responses_matched halloc rfl (by decide)
  exact ⟨_, rfl, rfl, rfl, rfl, hcodes, hsent⟩

end Audit

end Rko
