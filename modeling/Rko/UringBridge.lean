import Rko.UringResponses
import Rko.UringWire

namespace Rko

open GuardedRun CallPool Decoder

/-- A call of `UringBridgeHandler::handle`: its request, the channel it waits on, and the response
that it returned. -/
structure BridgeCall where
  request : Request
  channel : Option Channel
  reply : Option Response

/-- The handler with the calls of `handle` by their request ids, and the requests that user space
has read out of its buffers. -/
structure Bridge where
  handler : UringState
  arrivals : Nat
  calls : UInt64 → Option BridgeCall
  held : List RequestBuffer

def emptyReply (status : UInt16) : Response := ⟨status, .http11, [], []⟩

def notFound : Response := emptyReply 404

def internalServerError : Response := emptyReply 500

def gatewayTimeout : Response := emptyReply 504

/-- What user space finds in the buffer of a request. -/
def bufferOf (reqId : UInt64) (request : Request) : RequestBuffer :=
  ⟨requestHdr reqId request, request.version, request.path, request.headers, request.body⟩

/-- The sender of the channel is stored, or a SEND_RESPONSE is about to use it. -/
def UringState.senderAlive (s : UringState) (channel : Channel) : Bool :=
  (s.pending.any fun p => p.responseTx = channel) ||
    s.tasks.any fun t => match t with
      | .responding c _ => c = channel
      | _ => false

def UringTask.buffers (reqId : UInt64) : UringTask → Bool
  | .buffering _ id _ _ => id = reqId
  | _ => false

namespace Bridge

def new : Bridge := ⟨.new, 0, fun _ => none, []⟩

def amend (b : Bridge) (reqId : UInt64) (f : BridgeCall → BridgeCall) : Bridge :=
  { b with calls := Function.update b.calls reqId ((b.calls reqId).map f) }

def reply (b : Bridge) (reqId : UInt64) (response : Response) : Bridge :=
  b.amend reqId fun call => { call with reply := some response }

def openChannel (b : Bridge) (reqId : UInt64) (channel : Channel) : Bridge :=
  b.amend reqId fun call => { call with channel := some channel }

def enter (b : Bridge) (request : Request) : Bridge :=
  { b with
    arrivals := b.arrivals + 1
    calls := Function.update b.calls b.handler.nextReqId (some ⟨request, none, none⟩) }

/-- User space reads what RECV_REQUEST has copied to its buffer. -/
def receive (b : Bridge) (queueId bufLen : UInt32) (left : Nat) : Bridge :=
  match (cmdRecvRequest b.handler.queues queueId bufLen left).2.2 with
  | some x =>
    if left = 0 then
      match decodeRequest.run (x.data.take bufLen.toNat) with
      | some (buffer, _) => { b with held := buffer :: b.held }
      | none => b
    else b
  | none => b

/-- What an action of the handler means to the calls of `handle` and to user space. -/
def note (b : Bridge) : UringAction → Bridge
  | .arrive request => b.enter request
  | .route i alloc =>
    match b.handler.tasks[i]? with
    | some (.routing request reqId) =>
      match route b.handler.routes request.path with
      | none => b.reply reqId notFound
      | some _ => if alloc then b else b.reply reqId internalServerError
    | _ => b
  | .storePending i channel _ =>
    match b.handler.tasks[i]? with
    | some (.enqueueing _ reqId _) =>
      if channel then b.openChannel reqId b.handler.nextChannel
      else b.reply reqId internalServerError
    | _ => b
  | .recvRequest queueId bufLen left => b.receive queueId bufLen left
  | _ => b

/-- `rx.await` after `enqueue_serialized`: the response, or `None` once the sender is gone. -/
def await (b : Bridge) (reqId : UInt64) : Option Bridge :=
  match b.calls reqId with
  | some ⟨_, some channel, none⟩ =>
    if b.handler.tasks.any (UringTask.buffers reqId) then none
    else
      match b.handler.sent.find? fun x => x.1 = channel with
      | some (_, response) => some (b.reply reqId response)
      | none =>
        if b.handler.senderAlive channel then none else some (b.reply reqId gatewayTimeout)
  | _ => none

end Bridge

inductive BridgeAction
  | handler (a : UringAction)
  | await (reqId : UInt64)

/-- The allocation or the copy from user space fails. -/
def BridgeAction.fails : BridgeAction → Bool
  | .handler (.respond _ _ left alloc) => !alloc || decide (left ≠ 0)
  | .handler a => !a.allocates
  | .await _ => false

def Bridge.step (b : Bridge) : BridgeAction → Option Bridge
  | .handler a => (b.handler.step a).map fun s => { b.note a with handler := s }
  | .await reqId => b.await reqId

/-- The response that user space has for a request. -/
def appReply (app : RequestBuffer → UInt16 × Bytes) (buffer : RequestBuffer) : Response :=
  ⟨(app buffer).1, .http11, [], (app buffer).2⟩

/-- Requests come out of the parser, and user space answers only requests it holds, with the status
and the bytes that `app` has for them. -/
def Bridge.Follows (app : RequestBuffer → UInt16 × Bytes) (b : Bridge) : BridgeAction → Prop
  | .handler (.arrive request) => FieldsFit request
  | .handler (.sendResponse payload) => ∃ buffer ∈ b.held, buffer.hdr.reqId = payload.reqId.toNat
  | .handler (.respond i memory _ _) =>
    match b.handler.tasks[i]? with
    | some (.responding _ payload) => ∀ buffer ∈ b.held, buffer.hdr.reqId = payload.reqId.toNat →
      replyTo payload memory = appReply app buffer
    | _ => True
  | _ => True

instance (request : Request) : Decidable (FieldsFit request) :=
  decidable_of_iff (request.headers.length < 2 ^ 16 ∧
      (∀ h ∈ request.headers, h.1.length < 2 ^ 16 ∧ h.2.length < 2 ^ 16) ∧
      request.path.length < 2 ^ 32 ∧ request.body.length < 2 ^ 32 ∧ serializedLen request < 2 ^ 32)
    ⟨fun h => ⟨h.1, fun x hx => (h.2.1 x hx).1, fun x hx => (h.2.1 x hx).2, h.2.2.1, h.2.2.2.1,
      h.2.2.2.2⟩,
    fun h => ⟨h.headerCount, fun x hx => ⟨h.nameLen x hx, h.valueLen x hx⟩, h.pathLen, h.bodyLen,
      h.totalLen⟩⟩

instance (app : RequestBuffer → UInt16 × Bytes) (b : Bridge) (a : BridgeAction) :
    Decidable (b.Follows app a) := by
  unfold Bridge.Follows
  split
  next => infer_instance
  next => infer_instance
  next => split <;> infer_instance
  next => infer_instance

theorem stable_decodeRequest : Stable decodeRequest := by
  have hle : ∀ n, Stable (le n) := fun n => (stable_take n).map leValue
  have hhdr : Stable decodeHdr :=
    (hle 8).bind fun _ => (hle 1).bind fun _ => (hle 1).bind fun _ => (hle 2).bind fun _ =>
      (hle 4).bind fun _ => (hle 4).bind fun _ => (hle 4).bind fun _ => stable_pure _
  have hentry : Stable decodeHeaderEntry :=
    (hle 2).bind fun _ => (hle 2).bind fun _ => (stable_take _).bind fun _ =>
      (stable_take _).bind fun _ => stable_pure _
  exact hhdr.bind fun _ => (stable_ofOption _).bind fun _ => (stable_take _).bind fun _ =>
    (hentry.times _).bind fun _ => (stable_take _).bind fun _ => stable_pure _

/-- What user space reads out of a buffer, however long, is the request that was serialized. -/
theorem decodeRequest_take {reqId : UInt64} {request : Request} (h : FieldsFit request) {n : Nat}
    {buffer : RequestBuffer} {rest : Bytes}
    (hrun : decodeRequest.run ((serializeRequest reqId request).take n) = some (buffer, rest)) :
    buffer = bufferOf reqId request :=
  (decodes_request reqId h).of_take stable_decodeRequest hrun

section Holds

variable {queues : Queues} {x : BufferedRequest}

def Queues.Holds (queues : Queues) (x : BufferedRequest) : Prop :=
  ∃ q ∈ queues, x ∈ q.2.buffered

theorem Queues.holds_of_find {queueId : UInt32} {q : RequestQueue}
    (hfind : queues.find queueId = some q) (hx : x ∈ q.buffered) : queues.Holds x := by
  obtain ⟨y, hy, rfl⟩ := Option.map_eq_some_iff.mp hfind
  exact ⟨y, List.mem_of_find?_eq_some hy, hx⟩

theorem Queues.holds_update {queueId : UInt32} {f : RequestQueue → RequestQueue}
    (h : (Queues.update queueId f queues).Holds x) :
    queues.Holds x ∨ ∃ q, queues.find queueId = some q ∧ x ∈ (f q).buffered := by
  induction queues with
  | nil => exact Or.inl h
  | cons y queues ih =>
    obtain ⟨id, q⟩ := y
    obtain ⟨z, hz, hx⟩ := h
    rw [Queues.update] at hz
    rw [Queues.find_cons]
    split at hz
    next hid =>
      rcases List.mem_cons.mp hz with rfl | hz
      · exact Or.inr ⟨q, if_pos hid, hx⟩
      · exact Or.inl ⟨z, List.mem_cons_of_mem _ hz, hx⟩
    next hid =>
      rw [if_neg hid]
      rcases List.mem_cons.mp hz with rfl | hz
      · exact Or.inl ⟨(id, q), List.mem_cons_self, hx⟩
      · rcases ih ⟨z, hz, hx⟩ with ⟨w, hw, hxw⟩ | hfound
        · exact Or.inl ⟨w, List.mem_cons_of_mem _ hw, hxw⟩
        · exact Or.inr hfound

theorem holds_pushBuffered {queueId : UInt32} {y : BufferedRequest} {alloc : Bool}
    (h : (pushBuffered queues queueId y alloc).Holds x) : queues.Holds x ∨ x = y := by
  rcases Queues.holds_update h with hold | ⟨q, hfind, hx⟩
  · exact Or.inl hold
  · split at hx
    next =>
      rcases List.mem_append.mp hx with hx | hx
      · exact Or.inl (Queues.holds_of_find hfind hx)
      · exact Or.inr (List.mem_singleton.mp hx)
    next => exact Or.inl (Queues.holds_of_find hfind hx)

theorem holds_pushQueue {id maxPending : UInt32} {alloc : Bool}
    (h : (pushQueue queues id maxPending alloc).2.Holds x) : queues.Holds x := by
  cases alloc with
  | false => exact h
  | true =>
    obtain ⟨q, hq, hx⟩ := h
    rcases List.mem_append.mp hq with hq | hq
    · exact ⟨q, hq, hx⟩
    · cases List.mem_singleton.mp hq
      cases hx

theorem holds_cmdDestroyQueue {queueId : UInt32}
    (h : (cmdDestroyQueue queues queueId).2.Holds x) : queues.Holds x := by
  obtain ⟨q, hq, hx⟩ := h
  rw [cmdDestroyQueue_eq] at hq
  exact ⟨q, List.mem_of_mem_eraseP hq, hx⟩

/-- RECV_REQUEST takes a request out of its queue and leaves the others. -/
theorem holds_cmdRecvRequest {queueId bufLen : UInt32} {left : Nat}
    (h : (cmdRecvRequest queues queueId bufLen left).2.1.Holds x ∨
      (cmdRecvRequest queues queueId bufLen left).2.2 = some x) : queues.Holds x := by
  unfold cmdRecvRequest at h
  split at h
  next =>
    rcases h with h | h
    · exact h
    · cases h
  next q hfind =>
    split at h
    next =>
      rcases h with h | h
      · exact h
      · cases h
    next y rest hbuffered =>
      rcases h with h | h
      · rcases Queues.holds_update h with hold | ⟨q', hfind', hx⟩
        · exact hold
        · cases hfind.symm.trans hfind'
          exact Queues.holds_of_find hfind (hbuffered ▸ List.mem_cons_of_mem y hx)
      · cases Option.some.inj h
        exact Queues.holds_of_find hfind (hbuffered ▸ List.mem_cons_self)

end Holds

namespace Bridge

section Calls

variable {b b' : Bridge} {r : UInt64} {c : Channel} {q : Request}

/-- The request of a call. -/
def Has (b : Bridge) (r : UInt64) (q : Request) : Prop :=
  ∃ call, b.calls r = some call ∧ call.request = q

/-- The channel of a call. -/
def Opened (b : Bridge) (r : UInt64) (c : Channel) : Prop :=
  ∃ call, b.calls r = some call ∧ call.channel = some c

theorem Has.unique {q' : Request} (h : b.Has r q) (h' : b.Has r q') : q = q' := by
  obtain ⟨call, hcall, rfl⟩ := h
  obtain ⟨call', hcall', rfl⟩ := h'
  cases hcall.symm.trans hcall'
  rfl

/-- Calls keep their requests and channels, and user space keeps what it holds. -/
structure Grows (b b' : Bridge) : Prop where
  has : ∀ {r q}, b.Has r q → b'.Has r q
  opened : ∀ {r c}, b.Opened r c → b'.Opened r c
  held : ∀ x ∈ b.held, x ∈ b'.held

theorem amend_calls_self (b : Bridge) (r : UInt64) (f : BridgeCall → BridgeCall) :
    (b.amend r f).calls r = (b.calls r).map f := Function.update_self _ _ _

theorem amend_calls_of_ne (b : Bridge) {r r' : UInt64} (hne : r' ≠ r) (f : BridgeCall → BridgeCall) :
    (b.amend r f).calls r' = b.calls r' := Function.update_of_ne hne _ _

/-- Every call after an amendment is one from before, or the amended one. -/
theorem amend_cases {f : BridgeCall → BridgeCall} {r r' : UInt64} {call : BridgeCall}
    (h : (b.amend r f).calls r' = some call) :
    r' ≠ r ∧ b.calls r' = some call ∨ r' = r ∧ ∃ old, b.calls r = some old ∧ call = f old := by
  by_cases hr : r' = r
  · subst hr
    rw [amend_calls_self] at h
    obtain ⟨old, hold, rfl⟩ := Option.map_eq_some_iff.mp h
    exact Or.inr ⟨rfl, old, hold, rfl⟩
  · rw [amend_calls_of_ne b hr] at h
    exact Or.inl ⟨hr, h⟩

theorem has_amend {f : BridgeCall → BridgeCall} (hf : ∀ call, (f call).request = call.request)
    (r' : UInt64) (h : b.Has r q) : (b.amend r' f).Has r q := by
  obtain ⟨call, hcall, rfl⟩ := h
  by_cases hr : r = r'
  · subst hr
    exact ⟨f call, by rw [amend_calls_self, hcall, Option.map_some], hf call⟩
  · exact ⟨call, by rw [amend_calls_of_ne b hr, hcall], rfl⟩

theorem Grows.reply (b : Bridge) (r : UInt64) (response : Response) :
    b.Grows (b.reply r response) where
  has := has_amend (f := fun call => { call with reply := some response }) (fun _ => rfl) r
  opened := by
    intro r' c h
    obtain ⟨call, hcall, hc⟩ := h
    by_cases hr : r' = r
    · subst hr
      exact ⟨{ call with reply := some response }, by
        rw [Bridge.reply, amend_calls_self, hcall, Option.map_some], hc⟩
    · exact ⟨call, by rw [Bridge.reply, amend_calls_of_ne b hr, hcall], hc⟩
  held := fun _ h => h

theorem Grows.openChannel (hclosed : ∀ c, ¬ b.Opened r c) (c : Channel) :
    b.Grows (b.openChannel r c) where
  has := has_amend (f := fun call => { call with channel := some c }) (fun _ => rfl) r
  opened := by
    intro r' c' h
    by_cases hr : r' = r
    · subst hr
      exact absurd h (hclosed c')
    · obtain ⟨call, hcall, hc⟩ := h
      exact ⟨call, by rw [Bridge.openChannel, amend_calls_of_ne b hr, hcall], hc⟩
  held := fun _ h => h

theorem enter_calls_self (b : Bridge) (request : Request) :
    (b.enter request).calls b.handler.nextReqId = some ⟨request, none, none⟩ :=
  Function.update_self _ _ _

theorem enter_calls_of_ne (hne : r ≠ b.handler.nextReqId) (request : Request) :
    (b.enter request).calls r = b.calls r := Function.update_of_ne hne _ _

theorem enter_cases {request : Request} {call : BridgeCall}
    (h : (b.enter request).calls r = some call) :
    r = b.handler.nextReqId ∧ call = ⟨request, none, none⟩ ∨ b.calls r = some call := by
  by_cases hr : r = b.handler.nextReqId
  · subst hr
    rw [enter_calls_self] at h
    exact Or.inl ⟨rfl, (Option.some.inj h).symm⟩
  · rw [enter_calls_of_ne hr] at h
    exact Or.inr h

theorem has_of_enter {request : Request} (h : (b.enter request).Has r q) :
    r = b.handler.nextReqId ∧ q = request ∨ b.Has r q := by
  obtain ⟨call, hcall, rfl⟩ := h
  rcases enter_cases hcall with ⟨hr, rfl⟩ | hold
  · exact Or.inl ⟨hr, rfl⟩
  · exact Or.inr ⟨call, hold, rfl⟩

theorem opened_of_enter {request : Request} (h : (b.enter request).Opened r c) : b.Opened r c := by
  obtain ⟨call, hcall, hc⟩ := h
  rcases enter_cases hcall with ⟨-, rfl⟩ | hold
  · cases hc
  · exact ⟨call, hold, hc⟩

theorem Grows.enter (hfresh : b.calls b.handler.nextReqId = none) (request : Request) :
    b.Grows (b.enter request) := by
  have hkeep : ∀ {r old}, b.calls r = some old → (b.enter request).calls r = some old := by
    intro r old hold
    have hne : r ≠ b.handler.nextReqId := by
      intro heq
      rw [heq, hfresh] at hold
      cases hold
    rw [enter_calls_of_ne hne, hold]
  exact ⟨fun ⟨old, hold, hq⟩ => ⟨old, hkeep hold, hq⟩, fun ⟨old, hold, hc⟩ => ⟨old, hkeep hold, hc⟩,
    fun _ h => h⟩

theorem openChannel_cases {r' : UInt64} {c' : Channel} (h : (b.openChannel r c).Opened r' c') :
    r' ≠ r ∧ b.Opened r' c' ∨ r' = r ∧ c' = c := by
  obtain ⟨call, hcall, hc⟩ := h
  rcases amend_cases hcall with ⟨hne, hold⟩ | ⟨rfl, old, -, rfl⟩
  · exact Or.inl ⟨hne, call, hold, hc⟩
  · exact Or.inr ⟨rfl, (Option.some.inj hc).symm⟩

end Calls

section Items

variable {b b' : Bridge} {app : RequestBuffer → UInt16 × Bytes}

/-- The bytes are those of the request of that id. -/
def Carries (b : Bridge) (r : UInt64) (data : Bytes) : Prop :=
  ∃ q, b.Has r q ∧ data = serializeRequest r q

def TaskSound (b : Bridge) : UringTask → Prop
  | .routing q r => b.Has r q
  | .enqueueing _ r data => b.Carries r data
  | .buffering _ r data c => b.Carries r data ∧ b.Opened r c
  | .responding c payload => b.Opened payload.reqId c ∧
    ∃ q, b.Has payload.reqId q ∧ bufferOf payload.reqId q ∈ b.held
  | _ => True

/-- Everything in the handler belongs to the call of its id or channel, what user space holds is a
request, and a response that was sent is the one to its own request. -/
structure Items (app : RequestBuffer → UInt16 × Bytes) (b : Bridge) : Prop where
  tasks : ∀ t ∈ b.handler.tasks, b.TaskSound t
  pending : ∀ p ∈ b.handler.pending, b.Opened p.reqId p.responseTx
  queued : ∀ {x}, b.handler.queues.Holds x → b.Carries x.reqId x.data
  held : ∀ x ∈ b.held, ∃ r q, b.Has r q ∧ x = bufferOf r q
  sent : ∀ x ∈ b.handler.sent, ∃ r q, b.Has r q ∧ b.Opened r x.1 ∧ x.2 = appReply app (bufferOf r q)

theorem Carries.mono (hg : b.Grows b') {r : UInt64} {data : Bytes} (h : b.Carries r data) :
    b'.Carries r data := by
  obtain ⟨q, hq, hdata⟩ := h
  exact ⟨q, hg.has hq, hdata⟩

theorem TaskSound.mono (hg : b.Grows b') {t : UringTask} (h : b.TaskSound t) : b'.TaskSound t := by
  cases t with
  | routing q r => exact hg.has h
  | enqueueing queueId r data => exact Carries.mono hg h
  | buffering queueId r data c => exact ⟨Carries.mono hg h.1, hg.opened h.2⟩
  | creating id maxPending => trivial
  | adding url queueId => trivial
  | responding c payload =>
    obtain ⟨hc, q, hq, hheld⟩ := h
    exact ⟨hg.opened hc, q, hg.has hq, hg.held _ hheld⟩

/-- What was there stays sound as the calls grow, so that only what is new has to be looked at. -/
theorem Items.grow (h : Items app b) (hg : b.Grows b')
    (htasks : ∀ t ∈ b'.handler.tasks, t ∈ b.handler.tasks ∨ b'.TaskSound t)
    (hpending : ∀ p ∈ b'.handler.pending, p ∈ b.handler.pending ∨ b'.Opened p.reqId p.responseTx)
    (hqueued : ∀ {x}, b'.handler.queues.Holds x →
      b.handler.queues.Holds x ∨ b'.Carries x.reqId x.data)
    (hheld : ∀ x ∈ b'.held, x ∈ b.held ∨ ∃ r q, b'.Has r q ∧ x = bufferOf r q)
    (hsent : ∀ x ∈ b'.handler.sent, x ∈ b.handler.sent ∨
      ∃ r q, b'.Has r q ∧ b'.Opened r x.1 ∧ x.2 = appReply app (bufferOf r q)) :
    Items app b' where
  tasks := fun t ht => (htasks t ht).elim (fun hold => (h.tasks t hold).mono hg) id
  pending := fun p hp => (hpending p hp).elim (fun hold => hg.opened (h.pending p hold)) id
  queued := fun hx => (hqueued hx).elim (fun hold => (h.queued hold).mono hg) id
  held := by
    intro x hx
    rcases hheld x hx with hold | hnew
    · obtain ⟨r, q, hq, rfl⟩ := h.held x hold
      exact ⟨r, q, hg.has hq, rfl⟩
    · exact hnew
  sent := by
    intro x hx
    rcases hsent x hx with hold | hnew
    · obtain ⟨r, q, hq, hc, hreply⟩ := h.sent x hold
      exact ⟨r, q, hg.has hq, hg.opened hc, hreply⟩
    · exact hnew

theorem Items.unopened_has (h : Items app b) {r : UInt64} (hr : r ∈ b.handler.unopened) :
    ∃ q, b.Has r q := by
  obtain ⟨t, ht, hid⟩ := List.mem_filterMap.mp hr
  have hsound := h.tasks t ht
  cases t with
  | routing q r' =>
    cases hid
    exact ⟨q, hsound⟩
  | enqueueing queueId r' data =>
    cases hid
    obtain ⟨q, hq, -⟩ := hsound
    exact ⟨q, hq⟩
  | _ => cases hid

end Items

section Sound

variable {b : Bridge} {app : RequestBuffer → UInt16 × Bytes} {safe : Prop}

/-- A response that a call may return. -/
def Proper (safe : Prop) (app : RequestBuffer → UInt16 × Bytes) (r : UInt64) (q : Request)
    (response : Response) : Prop :=
  response = notFound ∨ response = appReply app (bufferOf r q) ∨
    ¬ safe ∧ (response = internalServerError ∨ response = gatewayTimeout)

/-- The sender of the channel is alive, or it has sent. -/
def Answerable (s : UringState) (c : Channel) : Prop :=
  s.senderAlive c = true ∨ ∃ response, (c, response) ∈ s.sent

/-- The ids and channels of the calls are their own, and what was returned is proper. -/
structure Sound (safe : Prop) (app : RequestBuffer → UInt16 × Bytes) (b : Bridge) : Prop
    extends Items app b where
  next : b.handler.nextReqId = UInt64.ofNat (b.arrivals + 1)
  numbered : ∀ {r q}, b.Has r q → r.toNat ≤ b.arrivals
  fits : ∀ {r q}, b.Has r q → FieldsFit q
  unopened : b.handler.unopened.Nodup
  closed : ∀ r ∈ b.handler.unopened, ∀ c, ¬ b.Opened r c
  channel_lt : ∀ {r c}, b.Opened r c → c < b.handler.nextChannel
  channel_inj : ∀ {r r' c}, b.Opened r c → b.Opened r' c → r = r'
  replied : ∀ {r call response}, b.calls r = some call → call.reply = some response →
    Proper safe app r call.request response
  answerable : safe → ∀ {r c}, b.Opened r c → Answerable b.handler c

theorem sound_new : Sound safe app Bridge.new where
  tasks := List.forall_mem_nil _
  pending := List.forall_mem_nil _
  queued := by
    intro x hx
    obtain ⟨q, hq, -⟩ := hx
    cases hq
  held := List.forall_mem_nil _
  sent := List.forall_mem_nil _
  next := rfl
  numbered := by
    intro r q h
    obtain ⟨call, hcall, -⟩ := h
    cases hcall
  fits := by
    intro r q h
    obtain ⟨call, hcall, -⟩ := h
    cases hcall
  unopened := List.nodup_nil
  closed := List.forall_mem_nil _
  channel_lt := by
    intro r c h
    obtain ⟨call, hcall, -⟩ := h
    cases hcall
  channel_inj := by
    intro r r' c h
    obtain ⟨call, hcall, -⟩ := h
    cases hcall
  replied := by
    intro r call response hcall
    cases hcall
  answerable := by
    intro _ r c h
    obtain ⟨call, hcall, -⟩ := h
    cases hcall

theorem senderAlive_iff {s : UringState} {c : Channel} : s.senderAlive c = true ↔
    (∃ p ∈ s.pending, p.responseTx = c) ∨ ∃ payload, .responding c payload ∈ s.tasks := by
  unfold UringState.senderAlive
  rw [Bool.or_eq_true, List.any_eq_true, List.any_eq_true]
  refine or_congr ?_ ?_
  · simp only [decide_eq_true_eq]
  · constructor
    · intro h
      obtain ⟨t, ht, hc⟩ := h
      cases t with
      | responding c' payload =>
        cases of_decide_eq_true hc
        exact ⟨payload, ht⟩
      | _ => cases hc
    · intro h
      obtain ⟨payload, ht⟩ := h
      exact ⟨_, ht, decide_eq_true rfl⟩

theorem reply_calls {r r' : UInt64} {response : Response} {call : BridgeCall}
    (h : (b.reply r response).calls r' = some call) :
    ∃ old, b.calls r' = some old ∧ call.request = old.request ∧ call.channel = old.channel ∧
      (call.reply = old.reply ∨ r' = r ∧ call.reply = some response) := by
  rcases amend_cases h with ⟨-, hcall⟩ | ⟨rfl, old, hold, rfl⟩
  · exact ⟨call, hcall, rfl, rfl, Or.inl rfl⟩
  · exact ⟨old, hold, rfl, rfl, Or.inr ⟨rfl, rfl⟩⟩

theorem has_of_reply {r r' : UInt64} {response : Response} {q : Request}
    (h : (b.reply r response).Has r' q) : b.Has r' q := by
  obtain ⟨call, hcall, rfl⟩ := h
  obtain ⟨old, hold, hrequest, -, -⟩ := reply_calls hcall
  exact ⟨old, hold, hrequest.symm⟩

theorem opened_of_reply {r r' : UInt64} {response : Response} {c : Channel}
    (h : (b.reply r response).Opened r' c) : b.Opened r' c := by
  obtain ⟨call, hcall, hc⟩ := h
  obtain ⟨old, hold, -, hchannel, -⟩ := reply_calls hcall
  exact ⟨old, hold, hchannel.symm.trans hc⟩

/-- A call returns a proper response. -/
theorem Sound.reply (h : Sound safe app b) {r : UInt64} {response : Response}
    (hproper : ∀ q, b.Has r q → Proper safe app r q response) :
    Sound safe app (b.reply r response) where
  toItems := h.toItems.grow (Grows.reply b r response) (fun _ ht => Or.inl ht)
    (fun _ hp => Or.inl hp) (fun hx => Or.inl hx) (fun _ hx => Or.inl hx) (fun _ hx => Or.inl hx)
  next := h.next
  numbered := fun hq => h.numbered (has_of_reply hq)
  fits := fun hq => h.fits (has_of_reply hq)
  unopened := h.unopened
  closed := fun r' hr' c hc => h.closed r' hr' c (opened_of_reply hc)
  channel_lt := fun hc => h.channel_lt (opened_of_reply hc)
  channel_inj := fun hc hc' => h.channel_inj (opened_of_reply hc) (opened_of_reply hc')
  replied := by
    intro r' call response' hcall hreply
    obtain ⟨old, hold, hrequest, -, hsame | ⟨rfl, hnew⟩⟩ := reply_calls hcall
    · rw [hrequest]
      exact h.replied hold (hsame.symm.trans hreply)
    · cases hnew.symm.trans hreply
      exact hproper _ ⟨old, hold, hrequest.symm⟩
  answerable := fun hsafe _ _ hc => h.answerable hsafe (opened_of_reply hc)

/-- User space reads a request. -/
theorem Sound.hold (h : Sound safe app b) {r : UInt64} {q : Request} (hq : b.Has r q) :
    Sound safe app { b with held := bufferOf r q :: b.held } := by
  have hg : b.Grows { b with held := bufferOf r q :: b.held } :=
    ⟨fun h => h, fun h => h, fun _ hx => List.mem_cons_of_mem _ hx⟩
  have hheld : ∀ x ∈ bufferOf r q :: b.held, x ∈ b.held ∨ ∃ r q, b.Has r q ∧ x = bufferOf r q := by
    intro x hx
    rcases List.mem_cons.mp hx with rfl | hold
    · exact Or.inr ⟨r, q, hq, rfl⟩
    · exact Or.inl hold
  have hitems := h.toItems.grow hg (fun _ ht => Or.inl ht) (fun _ hp => Or.inl hp)
    (fun hx => Or.inl hx) hheld (fun _ hx => Or.inl hx)
  exact { h with toItems := hitems }

/-- A step of the handler that opens, answers and stores nothing. -/
theorem Sound.frame (h : Sound safe app b) {s : UringState} (hf : b.handler.Frame s)
    (htasks : ∀ t ∈ s.tasks, t ∈ b.handler.tasks ∨ b.TaskSound t)
    (hqueued : ∀ {x}, s.queues.Holds x → b.handler.queues.Holds x ∨ b.Carries x.reqId x.data)
    (hsenders : safe → ∀ {c payload}, .responding c payload ∈ b.handler.tasks →
      .responding c payload ∈ s.tasks) :
    Sound safe app { b with handler := s } where
  toItems := h.toItems.grow ⟨fun h => h, fun h => h, fun _ hx => hx⟩ htasks
    (fun p hp => Or.inl (hf.pending ▸ hp)) hqueued (fun _ hx => Or.inl hx)
    (fun x hx => Or.inl (hf.sent ▸ hx))
  next := hf.nextReqId.trans h.next
  numbered := h.numbered
  fits := h.fits
  unopened := nodup_of_subperm hf.unopened h.unopened
  closed := fun r hr => h.closed r (hf.unopened.subset hr)
  channel_lt := fun hc => hf.nextChannel ▸ h.channel_lt hc
  channel_inj := h.channel_inj
  replied := h.replied
  answerable := by
    intro hsafe r c hc
    rcases h.answerable hsafe hc with halive | ⟨response, hsent⟩
    · refine Or.inl (senderAlive_iff.mpr ?_)
      rw [hf.pending]
      exact (senderAlive_iff.mp halive).imp_right fun ⟨payload, ht⟩ => ⟨payload, hsenders hsafe ht⟩
    · exact Or.inr ⟨response, hf.sent ▸ hsent⟩

/-- What is alive or sent stays so when nothing is taken away. -/
theorem Answerable.mono {s s' : UringState} {c : Channel} (h : Answerable s c)
    (hpending : ∀ p ∈ s.pending, p ∈ s'.pending)
    (htasks : ∀ {payload}, .responding c payload ∈ s.tasks → .responding c payload ∈ s'.tasks)
    (hsent : ∀ x ∈ s.sent, x ∈ s'.sent) : Answerable s' c := by
  rcases h with halive | ⟨response, hresponse⟩
  · refine Or.inl (senderAlive_iff.mpr ?_)
    rcases senderAlive_iff.mp halive with ⟨p, hp, hc⟩ | ⟨payload, ht⟩
    · exact Or.inl ⟨p, hpending p hp, hc⟩
    · exact Or.inr ⟨payload, htasks ht⟩
  · exact Or.inr ⟨response, hsent _ hresponse⟩

theorem Sound.nextReqId_toNat (h : Sound safe app b) (hlt : b.arrivals + 1 < 2 ^ 64) :
    b.handler.nextReqId.toNat = b.arrivals + 1 := by
  rw [h.next, UInt64.toNat_ofNat', Nat.mod_eq_of_lt hlt]

theorem Sound.arrive (h : Sound safe app b) {request : Request} (hfits : FieldsFit request)
    (hlt : b.arrivals + 1 < 2 ^ 64) :
    Sound safe app { b.enter request with
      handler := { b.handler.start (.routing request b.handler.nextReqId) with
        nextReqId := b.handler.nextReqId + 1 } } := by
  have hnat := h.nextReqId_toNat hlt
  have hnew : ¬ ∃ q, b.Has b.handler.nextReqId q := by
    intro ⟨q, hq⟩
    have hle := h.numbered hq
    omega
  have hfresh : b.calls b.handler.nextReqId = none := by
    cases hcall : b.calls b.handler.nextReqId with
    | none => rfl
    | some call => exact absurd ⟨call.request, call, hcall, rfl⟩ hnew
  have hg : b.Grows { b.enter request with
      handler := { b.handler.start (.routing request b.handler.nextReqId) with
        nextReqId := b.handler.nextReqId + 1 } } :=
    ⟨fun hq => (Grows.enter hfresh request).has hq, fun hc => (Grows.enter hfresh request).opened hc,
      fun _ hx => hx⟩
  have hentered : (b.enter request).Has b.handler.nextReqId request :=
    ⟨⟨request, none, none⟩, enter_calls_self b request, rfl⟩
  have hunopened : (b.handler.start (.routing request b.handler.nextReqId)).unopened =
      b.handler.unopened ++ [b.handler.nextReqId] := UringState.unopened_start _ _
  have hitems : Items app { b.enter request with
      handler := { b.handler.start (.routing request b.handler.nextReqId) with
        nextReqId := b.handler.nextReqId + 1 } } := by
    refine h.toItems.grow hg ?_ (fun _ hp => Or.inl hp) (fun hx => Or.inl hx)
      (fun _ hx => Or.inl hx) (fun _ hx => Or.inl hx)
    intro t ht
    rcases List.mem_append.mp ht with ht | ht
    · exact Or.inl ht
    · cases List.mem_singleton.mp ht
      exact Or.inr hentered
  refine ⟨hitems, ?_, ?_, ?_, ?_, ?_, fun hc => h.channel_lt (opened_of_enter hc),
    fun hc hc' => h.channel_inj (opened_of_enter hc) (opened_of_enter hc'), ?_, ?_⟩
  · show b.handler.nextReqId + 1 = _
    rw [h.next]
    exact (UInt64.ofNat_add _ 1).symm
  · intro r q hq
    rcases has_of_enter hq with ⟨rfl, -⟩ | hold
    · exact hnat.le
    · exact (h.numbered hold).trans (Nat.le_succ _)
  · intro r q hq
    rcases has_of_enter hq with ⟨-, rfl⟩ | hold
    · exact hfits
    · exact h.fits hold
  · show (b.handler.start (.routing request b.handler.nextReqId)).unopened.Nodup
    rw [hunopened]
    refine List.nodup_append.mpr ⟨h.unopened, List.nodup_singleton _, ?_⟩
    intro r hr r' hr' heq
    rw [List.mem_singleton.mp hr'] at heq
    exact hnew (heq ▸ h.unopened_has hr)
  · intro r hr c hc
    have hr' : r ∈ b.handler.unopened ++ [b.handler.nextReqId] := hunopened ▸ hr
    rcases List.mem_append.mp hr' with hold | hlast
    · exact h.closed r hold c (opened_of_enter hc)
    · obtain ⟨call, hcall, -⟩ := opened_of_enter hc
      rw [List.mem_singleton.mp hlast, hfresh] at hcall
      cases hcall
  · intro r call response hcall hreply
    rcases enter_cases hcall with ⟨-, rfl⟩ | hold
    · cases hreply
    · exact h.replied hold hreply
  · intro hsafe r c hc
    exact (h.answerable hsafe (opened_of_enter hc)).mono (fun _ hp => hp)
      (fun ht => List.mem_append_left _ ht) (fun _ hx => hx)

/-- A channel is opened for a request, and its sender stored unless there is no memory for it. -/
theorem Sound.openChannel (h : Sound safe app b) {i : Nat} {queueId : UInt32} {r : UInt64}
    {data : Bytes} (ht : b.handler.tasks[i]? = some (.enqueueing queueId r data)) {alloc : Bool}
    (halloc : safe → alloc = true) :
    Sound safe app { b.openChannel r b.handler.nextChannel with
      handler := b.handler.stepStore i queueId r data true alloc } := by
  obtain ⟨b', hb'⟩ : ∃ b' : Bridge, b' = { b.openChannel r b.handler.nextChannel with
      handler := b.handler.stepStore i queueId r data true alloc } := ⟨_, rfl⟩
  have hmem := List.mem_of_getElem? ht
  have hclosed : ∀ c, ¬ b.Opened r c :=
    h.closed r (List.mem_filterMap.mpr ⟨_, hmem, rfl⟩)
  have hcarries : b.Carries r data := h.tasks _ hmem
  have hg : b.Grows b' := by
    have hopen := Grows.openChannel hclosed b.handler.nextChannel
    rw [hb']
    exact ⟨fun hq => hopen.has hq, fun hc => hopen.opened hc, fun _ hx => hx⟩
  have hcases : ∀ {r' c}, b'.Opened r' c →
      r' ≠ r ∧ b.Opened r' c ∨ r' = r ∧ c = b.handler.nextChannel := by
    intro r' c hc
    rw [hb'] at hc
    exact openChannel_cases hc
  have hhas : ∀ {r' q}, b'.Has r' q → b.Has r' q := by
    intro r' q hq
    rw [hb'] at hq
    obtain ⟨call, hcall, rfl⟩ := hq
    rcases amend_cases hcall with ⟨-, hold⟩ | ⟨rfl, old, hold, rfl⟩
    · exact ⟨call, hold, rfl⟩
    · exact ⟨old, hold, rfl⟩
  have hopened : b'.Opened r b.handler.nextChannel := by
    obtain ⟨q, ⟨call, hcall, -⟩, -⟩ := hcarries
    rw [hb']
    exact ⟨{ call with channel := some b.handler.nextChannel }, by
      rw [Bridge.openChannel, amend_calls_self, hcall, Option.map_some], rfl⟩
  have hperm : (r :: b'.handler.unopened).Perm b.handler.unopened := by
    rw [hb']
    exact filterMap_set UringTask.unopened ht _
  have hnodup := hperm.nodup_iff.mpr h.unopened
  have hpending : b'.handler.pending =
      if alloc then b.handler.pending ++ [⟨r, b.handler.nextChannel⟩] else b.handler.pending := by
    rw [hb']
    rfl
  have htasks : b'.handler.tasks =
      b.handler.tasks.set i (.buffering queueId r data b.handler.nextChannel) := by
    rw [hb']
    rfl
  have hkept : ∀ p ∈ b.handler.pending, p ∈ b'.handler.pending := by
    intro p hp
    rw [hpending]
    split
    next => exact List.mem_append_left _ hp
    next => exact hp
  have hitems : Items app b' := by
    refine h.toItems.grow hg ?_ ?_ ?_ ?_ ?_
    · intro t hmem'
      rw [htasks] at hmem'
      rcases List.mem_or_eq_of_mem_set hmem' with hold | rfl
      · exact Or.inl hold
      · exact Or.inr ⟨hcarries.mono hg, hopened⟩
    · intro p hp
      rw [hpending] at hp
      split at hp
      next =>
        rcases List.mem_append.mp hp with hold | hnew
        · exact Or.inl hold
        · cases List.mem_singleton.mp hnew
          exact Or.inr hopened
      next => exact Or.inl hp
    · intro x hx
      rw [hb'] at hx
      exact Or.inl hx
    · intro x hx
      rw [hb'] at hx
      exact Or.inl hx
    · intro x hx
      rw [hb'] at hx
      exact Or.inl hx
  have hnext : b'.handler.nextChannel = b.handler.nextChannel + 1 := by
    rw [hb']
    rfl
  rw [← hb']
  refine ⟨hitems, ?_, ?_, fun hq => h.fits (hhas hq), (List.nodup_cons.mp hnodup).2, ?_, ?_, ?_, ?_, ?_⟩
  · rw [hb']
    exact h.next
  · intro r' q hq
    have hle := h.numbered (hhas hq)
    rw [hb']
    exact hle
  · intro r' hr' c hc
    rcases hcases hc with ⟨-, hold⟩ | ⟨rfl, -⟩
    · exact h.closed r' (hperm.subset (List.mem_cons_of_mem r hr')) c hold
    · exact (List.nodup_cons.mp hnodup).1 hr'
  · intro r' c hc
    rw [hnext]
    rcases hcases hc with ⟨-, hold⟩ | ⟨-, rfl⟩
    · exact Nat.lt_succ_of_lt (h.channel_lt hold)
    · exact Nat.lt_succ_self _
  · intro r₁ r₂ c hc₁ hc₂
    rcases hcases hc₁ with ⟨-, hold₁⟩ | ⟨rfl, rfl⟩
    · rcases hcases hc₂ with ⟨-, hold₂⟩ | ⟨-, rfl⟩
      · exact h.channel_inj hold₁ hold₂
      · exact absurd (h.channel_lt hold₁) (Nat.lt_irrefl _)
    · rcases hcases hc₂ with ⟨-, hold₂⟩ | ⟨rfl, -⟩
      · exact absurd (h.channel_lt hold₂) (Nat.lt_irrefl _)
      · rfl
  · intro r' call response hcall hreply
    rw [hb'] at hcall
    rcases amend_cases hcall with ⟨-, hold⟩ | ⟨rfl, old, hold, rfl⟩
    · exact h.replied hold hreply
    · have hproper : Proper safe app r' old.request response := h.replied hold hreply
      exact hproper
  · intro hsafe r' c hc
    rcases hcases hc with ⟨-, hold⟩ | ⟨-, rfl⟩
    · refine (h.answerable hsafe hold).mono hkept ?_ ?_
      · intro payload hpayload
        rw [htasks]
        exact mem_set_of_ne ht _ hpayload UringTask.noConfusion
      · intro x hx
        rw [hb']
        exact hx
    · refine Or.inl (senderAlive_iff.mpr (Or.inl ⟨⟨r, b.handler.nextChannel⟩, ?_, rfl⟩))
      rw [hpending, if_pos (halloc hsafe)]
      exact List.mem_append_right _ (List.mem_singleton_self _)

/-- SEND_RESPONSE takes the sender of a request that user space holds. -/
theorem Sound.sendResponse (h : Sound safe app b) {payload : CmdSendResponse} {channel : Channel}
    {pending : List PendingRequest}
    (htake : takePending b.handler.pending payload.reqId = some (channel, pending))
    (hheld : ∃ buffer ∈ b.held, buffer.hdr.reqId = payload.reqId.toNat) :
    Sound safe app { b with
      handler := { b.handler.start (.responding channel payload) with pending } } := by
  have hperm := takePending_perm htake
  have hopened : b.Opened payload.reqId channel :=
    h.pending ⟨payload.reqId, channel⟩ (hperm.subset List.mem_cons_self)
  have hholds : ∃ q, b.Has payload.reqId q ∧ bufferOf payload.reqId q ∈ b.held := by
    obtain ⟨buffer, hbuffer, hid⟩ := hheld
    obtain ⟨r, q, hq, rfl⟩ := h.held buffer hbuffer
    cases UInt64.toNat_inj.mp (show r.toNat = payload.reqId.toNat from hid)
    exact ⟨q, hq, hbuffer⟩
  have hunopened : (b.handler.start (.responding channel payload)).unopened = b.handler.unopened :=
    (UringState.unopened_start _ _).trans (List.append_nil _)
  have hitems : Items app { b with
      handler := { b.handler.start (.responding channel payload) with pending } } := by
    refine h.toItems.grow ⟨fun hq => hq, fun hc => hc, fun _ hx => hx⟩ ?_
      (fun p hp => Or.inl (takePending_subset htake p hp)) (fun hx => Or.inl hx)
      (fun _ hx => Or.inl hx) (fun _ hx => Or.inl hx)
    intro t ht
    rcases List.mem_append.mp ht with hold | hnew
    · exact Or.inl hold
    · cases List.mem_singleton.mp hnew
      exact Or.inr ⟨hopened, hholds⟩
  refine ⟨hitems, h.next, h.numbered, h.fits, ?_, ?_, h.channel_lt, h.channel_inj, h.replied, ?_⟩
  · exact hunopened ▸ h.unopened
  · exact fun r hr => h.closed r (hunopened ▸ hr)
  · intro hsafe r c hc
    rcases h.answerable hsafe hc with halive | hsent
    · refine Or.inl (senderAlive_iff.mpr ?_)
      rcases senderAlive_iff.mp halive with ⟨p, hp, rfl⟩ | ⟨payload', ht⟩
      · rcases List.mem_cons.mp (hperm.symm.subset hp) with rfl | hold
        · exact Or.inr ⟨payload, List.mem_append_right _ (List.mem_singleton_self _)⟩
        · exact Or.inl ⟨p, hold, rfl⟩
      · exact Or.inr ⟨payload', List.mem_append_left _ ht⟩
    · exact Or.inr hsent

/-- The response is sent on the channel of its request, or the sender is dropped. -/
theorem Sound.respond (h : Sound safe app b) {i : Nat} {channel : Channel}
    {payload : CmdSendResponse} (ht : b.handler.tasks[i]? = some (.responding channel payload))
    {reply : Except Error Response} (hok : safe → ∃ response, reply = .ok response)
    (hreply : ∀ buffer ∈ b.held, buffer.hdr.reqId = payload.reqId.toNat →
      ∀ response, reply = .ok response → response = appReply app buffer) :
    Sound safe app { b with handler := b.handler.stepRespond i channel reply } := by
  have herased : ∀ t ∈ b.handler.tasks.eraseIdx i, t ∈ b.handler.tasks := fun t hmem =>
    List.mem_of_mem_eraseIdx hmem
  cases reply with
  | error e =>
    refine h.frame (UringState.Frame.finish b.handler i) (fun t hmem => Or.inl (herased t hmem))
      (fun hx => Or.inl hx) fun hsafe => ?_
    obtain ⟨response, hresponse⟩ := hok hsafe
    cases hresponse
  | ok response =>
    obtain ⟨hopened, q, hq, hheld⟩ := h.tasks _ (List.mem_of_getElem? ht)
    have hanswer : response = appReply app (bufferOf payload.reqId q) :=
      hreply _ hheld rfl response rfl
    have hf := UringState.Frame.finish b.handler i
    have hitems : Items app { b with
        handler := { b.handler.finish i with sent := b.handler.sent ++ [(channel, response)] } } := by
      refine h.toItems.grow ⟨fun hq => hq, fun hc => hc, fun _ hx => hx⟩
        (fun t hmem => Or.inl (herased t hmem)) (fun _ hp => Or.inl hp) (fun hx => Or.inl hx)
        (fun _ hx => Or.inl hx) ?_
      intro x hx
      rcases List.mem_append.mp hx with hold | hnew
      · exact Or.inl hold
      · cases List.mem_singleton.mp hnew
        exact Or.inr ⟨payload.reqId, q, hq, hopened, hanswer⟩
    refine ⟨hitems, h.next, h.numbered, h.fits, nodup_of_subperm hf.unopened h.unopened,
      fun r hr => h.closed r (hf.unopened.subset hr), h.channel_lt, h.channel_inj, h.replied, ?_⟩
    intro hsafe r c hc
    by_cases hchannel : c = channel
    · rw [hchannel]
      exact Or.inr ⟨response, List.mem_append_right _ (List.mem_singleton_self _)⟩
    · refine (h.answerable hsafe hc).mono (fun _ hp => hp) ?_ (fun _ hx => List.mem_append_left _ hx)
      intro payload' hmem
      refine mem_eraseIdx_of_ne ht hmem fun heq => hchannel ?_
      cases heq
      rfl

/-- What the handler does for a call of `handle` before it waits. -/
theorem Sound.route (h : Sound safe app b) {i : Nat} {request : Request} {r : UInt64}
    (ht : b.handler.tasks[i]? = some (.routing request r)) {alloc : Bool}
    (halloc : safe → alloc = true) :
    Sound safe app { b.note (.route i alloc) with
      handler := b.handler.stepRoute i request r alloc } := by
  have hhas : b.Has r request := h.tasks _ (List.mem_of_getElem? ht)
  have hsenders : ∀ {c payload}, UringTask.responding c payload ∈ b.handler.tasks →
      .responding c payload ∈ (b.handler.finish i).tasks :=
    fun hmem => mem_eraseIdx_of_ne ht hmem UringTask.noConfusion
  have hfinish : ∀ {response}, Proper safe app r request response →
      Sound safe app { b.reply r response with handler := b.handler.finish i } := by
    intro response hproper
    refine (h.reply fun q hq => hq.unique hhas ▸ hproper).frame
      (UringState.Frame.finish b.handler i) (fun t hmem => Or.inl (List.mem_of_mem_eraseIdx hmem))
      (fun hx => Or.inl hx) fun _ _ _ hmem => hsenders hmem
  unfold note UringState.stepRoute
  simp only [ht]
  cases hroute : Rko.route b.handler.routes request.path with
  | none => exact hfinish (Or.inl rfl)
  | some queueId =>
    cases alloc with
    | false =>
      refine hfinish (Or.inr (Or.inr ⟨fun hsafe => ?_, Or.inl rfl⟩))
      cases halloc hsafe
    | true =>
      refine h.frame (UringState.Frame.advance ht rfl rfl rfl) ?_ (fun hx => Or.inl hx) ?_
      · intro t hmem
        rcases List.mem_or_eq_of_mem_set hmem with hold | rfl
        · exact Or.inl hold
        · exact Or.inr ⟨request, hhas, rfl⟩
      · intro _ c payload hmem
        exact mem_set_of_ne ht _ hmem UringTask.noConfusion

theorem respond_succeeds {payload : CmdSendResponse} {memory : UInt64 → UInt8} {left : Nat}
    {alloc : Bool} (halloc : alloc = true) (hleft : left = 0) :
    ∃ response, Rko.respond payload memory left alloc = .ok response := by
  unfold Rko.respond
  rw [halloc, hleft]
  split
  next => exact ⟨_, rfl⟩
  next => exact ⟨_, rfl⟩

/-- What RECV_REQUEST gives to user space is a request of one of the calls. -/
theorem Sound.receive (h : Sound safe app b) (queueId bufLen : UInt32) (left : Nat) :
    Sound safe app (b.receive queueId bufLen left) := by
  unfold Bridge.receive
  split
  next x hx =>
    split
    next =>
      split
      next buffer rest hdecode =>
        obtain ⟨q, hq, hdata⟩ := h.queued (holds_cmdRecvRequest (Or.inr hx))
        rw [hdata] at hdecode
        rw [decodeRequest_take (h.fits hq) hdecode]
        exact h.hold hq
      next => exact h
    next => exact h
  next => exact h

theorem receive_handler (b : Bridge) (queueId bufLen : UInt32) (left : Nat) :
    (b.receive queueId bufLen left).handler = b.handler := by
  unfold Bridge.receive
  split
  next =>
    split
    next => split <;> rfl
    next => rfl
  next => rfl

/-- A step of the handler, with user space following the protocol. -/
theorem Sound.handler (h : Sound safe app b) {a : UringAction} {s : UringState}
    (hfollows : b.Follows app (.handler a)) (hfails : safe → (BridgeAction.handler a).fails = false)
    (hlt : (b.note a).arrivals < 2 ^ 64) (hstep : b.handler.step a = some s) :
    Sound safe app { b.note a with handler := s } := by
  have hfinished : ∀ {i : Nat} {t : UringTask}, b.handler.tasks[i]? = some t →
      (∀ c payload, t ≠ .responding c payload) → ∀ {c payload},
      .responding c payload ∈ b.handler.tasks →
      .responding c payload ∈ b.handler.tasks.eraseIdx i :=
    fun ht hne _ _ hmem => mem_eraseIdx_of_ne ht hmem fun heq => hne _ _ heq.symm
  have hstarted : ∀ {t u : UringTask}, u ∈ (b.handler.start t).tasks → b.TaskSound t →
      u ∈ b.handler.tasks ∨ b.TaskSound u := by
    intro t u hu ht
    rcases List.mem_append.mp hu with hold | hnew
    · exact Or.inl hold
    · cases List.mem_singleton.mp hnew
      exact Or.inr ht
  cases UringState.transition_of_step hstep with
  | arrive request => exact h.arrive hfollows hlt
  | route alloc htask =>
    refine h.route htask fun hsafe => ?_
    simpa [BridgeAction.fails, UringAction.allocates] using hfails hsafe
  | storePending channel alloc htask =>
    simp only [note, htask]
    cases channel with
    | true =>
      refine h.openChannel htask fun hsafe => ?_
      simpa [BridgeAction.fails, UringAction.allocates] using hfails hsafe
    | false =>
      refine (h.reply fun q _ => Or.inr (Or.inr ⟨fun hsafe => ?_, Or.inl rfl⟩)).frame
        (UringState.Frame.finish b.handler _) (fun t hmem => Or.inl (List.mem_of_mem_eraseIdx hmem))
        (fun hx => Or.inl hx) fun _ _ _ hmem => hfinished htask (fun _ _ => UringTask.noConfusion) hmem
      have hfalse := hfails hsafe
      simp [BridgeAction.fails, UringAction.allocates] at hfalse
  | buffer alloc htask =>
    have hcarries := (h.tasks _ (List.mem_of_getElem? htask)).1
    refine h.frame (UringState.Frame.buffer htask alloc)
      (fun t hmem => Or.inl (List.mem_of_mem_eraseIdx hmem)) ?_
      fun _ _ _ hmem => hfinished htask (fun _ _ => UringTask.noConfusion) hmem
    intro x hx
    rcases holds_pushBuffered hx with hold | rfl
    · exact Or.inl hold
    · exact Or.inr hcarries
  | createQueue maxPending =>
    refine h.frame (UringState.Frame.start rfl rfl rfl _) ?_ (fun hx => Or.inl hx)
      fun _ _ _ hmem => List.mem_append_left _ hmem
    exact fun t hmem => hstarted hmem trivial
  | pushQueue alloc htask =>
    exact h.frame ((UringState.Frame.finish b.handler _).trans
        (UringState.Frame.of_tables (fun _ hc => entries_pushQueue hc) b.handler.routes))
      (fun t hmem => Or.inl (List.mem_of_mem_eraseIdx hmem)) (fun hx => Or.inl (holds_pushQueue hx))
      fun _ _ _ hmem => hfinished htask (fun _ _ => UringTask.noConfusion) hmem
  | destroyQueue queueId =>
    exact h.frame (UringState.Frame.of_tables (fun _ hc => entries_cmdDestroyQueue hc) _)
      (fun _ hmem => Or.inl hmem) (fun hx => Or.inl (holds_cmdDestroyQueue hx))
      fun _ _ _ hmem => hmem
  | addUrl url hqueue =>
    refine h.frame (UringState.Frame.start rfl rfl rfl _) ?_ (fun hx => Or.inl hx)
      fun _ _ _ hmem => List.mem_append_left _ hmem
    exact fun t hmem => hstarted hmem trivial
  | refuseUrl queueId url alloc => exact h
  | insertUrl alloc htask =>
    exact h.frame { UringState.Frame.finish b.handler _ with }
      (fun t hmem => Or.inl (List.mem_of_mem_eraseIdx hmem)) (fun hx => Or.inl hx)
      fun _ _ _ hmem => hfinished htask (fun _ _ => UringTask.noConfusion) hmem
  | removeUrl url =>
    exact h.frame (UringState.Frame.of_tables (fun _ hc => hc) _) (fun _ hmem => Or.inl hmem)
      (fun hx => Or.inl hx) fun _ _ _ hmem => hmem
  | recvRequest queueId bufLen left =>
    have hsame := receive_handler b queueId bufLen left
    have hframe := UringState.Frame.recv b.handler queueId bufLen left
    have htasks : (b.handler.stepRecv queueId bufLen left).tasks = b.handler.tasks := by
      obtain ⟨delivered, hrecv⟩ := b.handler.stepRecv_eq queueId bufLen left
      rw [hrecv]
    refine (h.receive queueId bufLen left).frame (hsame.symm ▸ hframe) ?_ ?_ ?_
    · intro t hmem
      rw [htasks] at hmem
      exact Or.inl (hsame.symm ▸ hmem)
    · intro x hx
      rw [UringState.stepRecv_queues] at hx
      rw [hsame]
      exact Or.inl (holds_cmdRecvRequest (Or.inl hx))
    · intro _ c payload hmem
      rw [htasks]
      exact hsame ▸ hmem
  | sendUnknown hnone => exact h
  | sendResponse htake => exact h.sendResponse htake hfollows
  | respond memory left alloc htask =>
    refine h.respond htask (fun hsafe => ?_) ?_
    · have hfine := hfails hsafe
      simp only [BridgeAction.fails, Bool.or_eq_false_iff, Bool.not_eq_false', decide_eq_false_iff_not,
        not_not] at hfine
      exact respond_succeeds hfine.1 hfine.2
    · intro buffer hbuffer hid response hresponse
      simp only [Follows, htask] at hfollows
      rw [respond_ok hresponse]
      exact hfollows buffer hbuffer hid

/-- A call that has waited returns the response that was sent on its channel. -/
theorem Sound.await (h : Sound safe app b) {r : UInt64} {b' : Bridge} (hstep : b.await r = some b') :
    Sound safe app b' := by
  unfold Bridge.await at hstep
  split at hstep
  next request channel hcall =>
    have hopened : b.Opened r channel := ⟨_, hcall, rfl⟩
    split at hstep
    next => cases hstep
    next =>
      split at hstep
      next c response hfind =>
        cases hstep
        obtain ⟨r', q, hq, hc, hreply⟩ := h.sent _ (List.mem_of_find?_eq_some hfind)
        have hfound := List.find?_some hfind
        have hchannel : c = channel := of_decide_eq_true hfound
        cases h.channel_inj hopened (hchannel ▸ hc)
        refine h.reply fun q' hq' => Or.inr (Or.inl ?_)
        rw [hq'.unique hq]
        exact hreply
      next hfind =>
        split at hstep
        next => cases hstep
        next hdead =>
          cases hstep
          refine h.reply fun _ _ => Or.inr (Or.inr ⟨fun hsafe => ?_, Or.inr rfl⟩)
          rcases h.answerable hsafe hopened with halive | ⟨response, hsent⟩
          · exact hdead halive
          · have hnot := List.find?_eq_none.mp hfind _ hsent
            exact hnot (decide_eq_true rfl)
  next => cases hstep

theorem Sound.step (h : Sound safe app b) {a : BridgeAction} {b' : Bridge}
    (hfollows : b.Follows app a) (hfails : safe → a.fails = false) (hlt : b'.arrivals < 2 ^ 64)
    (hstep : b.step a = some b') : Sound safe app b' := by
  cases a with
  | handler a =>
    obtain ⟨s, hs, rfl⟩ := Option.map_eq_some_iff.mp hstep
    exact h.handler hfollows hfails hlt hs
  | await r => exact h.await hstep

end Sound

theorem note_arrivals_le (b : Bridge) (a : UringAction) : b.arrivals ≤ (b.note a).arrivals := by
  cases a with
  | arrive request => exact Nat.le_succ _
  | route i alloc =>
    simp only [note]
    split
    · split
      · exact le_rfl
      · split <;> exact le_rfl
    · exact le_rfl
  | storePending i channel alloc =>
    simp only [note]
    split
    · split <;> exact le_rfl
    · exact le_rfl
  | recvRequest queueId bufLen left =>
    simp only [note, receive]
    split
    · split
      · split <;> exact le_rfl
      · exact le_rfl
    · exact le_rfl
  | _ => exact le_rfl

theorem arrivals_le {b b' : Bridge} {a : BridgeAction} (h : b.step a = some b') :
    b.arrivals ≤ b'.arrivals := by
  cases a with
  | handler a =>
    obtain ⟨s, -, rfl⟩ := Option.map_eq_some_iff.mp h
    exact b.note_arrivals_le a
  | await r =>
    change b.await r = some b' at h
    unfold Bridge.await at h
    grind [Bridge.reply, Bridge.amend]

theorem sound_of_run (safe : Prop) {app : RequestBuffer → UInt16 × Bytes} {as : List BridgeAction}
    {b : Bridge} (hfollows : Guarded step (Follows app) new as)
    (hfails : safe → ∀ a ∈ as, a.fails = false) (hrun : run step new as = some b)
    (hlt : b.arrivals < 2 ^ 64) : Sound safe app b := by
  have hfine : Guarded step (fun _ a => safe → a.fails = false) new as :=
    guarded_of_forall (fun a ha hsafe => hfails hsafe a ha) new
  have hinv : ∀ {b b' : Bridge} {a : BridgeAction}, (b.arrivals < 2 ^ 64 → Sound safe app b) →
      b.Follows app a ∧ (safe → a.fails = false) → b.step a = some b' →
        b'.arrivals < 2 ^ 64 → Sound safe app b' := by
    intro b b' a hsound hguard hstep hlt'
    exact (hsound ((arrivals_le hstep).trans_lt hlt')).step hguard.1 hguard.2 hlt' hstep
  exact run_invariant hinv (fun _ => sound_new) (hfollows.and hfine) hrun hlt

/-- Whatever the interleaving of HTTP requests, commands and user space, as long as user space
answers only the requests it has received, every call of the bridge handler that returns gives
user space's answer to its own request, or 404; an error status of the bridge itself needs an
allocation or a copy that failed. -/
theorem bridge_answers (app : RequestBuffer → UInt16 × Bytes) {as : List BridgeAction} {b : Bridge}
    (hfollows : Guarded step (Follows app) new as) (hrun : run step new as = some b)
    (hlt : b.arrivals < 2 ^ 64) {r : UInt64} {call : BridgeCall} {response : Response}
    (hcall : b.calls r = some call) (hreply : call.reply = some response) :
    response = notFound ∨ response = appReply app (bufferOf r call.request) ∨
      (∃ a ∈ as, a.fails = true) ∧
        (response = internalServerError ∨ response = gatewayTimeout) := by
  have h := sound_of_run (∀ a ∈ as, a.fails = false) hfollows (fun hsafe => hsafe) hrun hlt
  rcases h.replied hcall hreply with hnone | hown | ⟨hfaulty, herror⟩
  · exact Or.inl hnone
  · exact Or.inr (Or.inl hown)
  · refine Or.inr (Or.inr ⟨?_, herror⟩)
    push Not at hfaulty
    obtain ⟨a, ha, hfail⟩ := hfaulty
    exact ⟨a, ha, Bool.of_not_eq_false hfail⟩

/-- User space answers with the path it was asked for. -/
def echoPath (buffer : RequestBuffer) : UInt16 × Bytes := (200, buffer.path)

/-- Two requests are received in their order, and answered the other way round. -/
def twoAnswered : List UringAction :=
  UringState.oneBuffered ++ [.arrive ⟨.get, ascii "/b", .http11, [], []⟩, .route 0 true,
    .storePending 0 true true, .buffer 0 true, .recvRequest 1 4096 0, .recvRequest 1 4096 0,
    .sendResponse ⟨2, 200, 2, 64⟩, .respond 0 (fun i => (ascii "/b").getD (i.toNat - 64) 0) 0 true,
    .sendResponse ⟨1, 200, 2, 64⟩, .respond 0 (fun i => (ascii "/a").getD (i.toNat - 64) 0) 0 true]

def twoEchoed : List BridgeAction := twoAnswered.map .handler ++ [.await 1, .await 2]

theorem bridge_answers_twoEchoed :
    ∃ b call, run step new twoEchoed = some b ∧ b.calls 1 = some call ∧
      call.reply = some ⟨200, .http11, [], ascii "/a"⟩ ∧
      ∀ response, call.reply = some response →
        response = notFound ∨ response = appReply echoPath (bufferOf 1 call.request) ∨
          (∃ a ∈ twoEchoed, a.fails = true) ∧
            (response = internalServerError ∨ response = gatewayTimeout) := by
  have hfollows : Guarded step (Follows echoPath) new twoEchoed := by decide +kernel
  have hreply : ((run step new twoEchoed).bind fun b => (b.calls 1).bind BridgeCall.reply) =
      some ⟨200, .http11, [], ascii "/a"⟩ := by decide +kernel
  have harrivals : (run step new twoEchoed).map Bridge.arrivals = some 2 := by decide +kernel
  obtain ⟨b, hrun, hreply⟩ := Option.bind_eq_some_iff.mp hreply
  obtain ⟨call, hcall, hreply⟩ := Option.bind_eq_some_iff.mp hreply
  rw [hrun] at harrivals
  have hlt : b.arrivals < 2 ^ 64 := by
    have := Option.some.inj harrivals
    omega
  exact ⟨b, call, hrun, hcall, hreply, fun response =>
    bridge_answers echoPath hfollows hrun hlt hcall⟩

end Bridge

end Rko
