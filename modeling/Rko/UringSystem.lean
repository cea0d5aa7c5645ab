import Rko.GuardedRun
import Rko.Uring

namespace Rko

/-- A call that has released one lock of the handler and not yet taken the next. -/
inductive UringTask
  | routing (request : Request) (reqId : UInt64)
  | enqueueing (queueId : UInt32) (reqId : UInt64) (data : Bytes)
  | buffering (queueId : UInt32) (reqId : UInt64) (data : Bytes) (channel : Channel)
  | creating (id maxPending : UInt32)
  | adding (url : Bytes) (queueId : UInt32)
  | responding (channel : Channel) (payload : CmdSendResponse)
deriving DecidableEq, Repr

def UringTask.isBuffering : UringTask → Bool
  | .buffering .. => true
  | _ => false

/-- A handler with the calls on it that are in progress. `delivered` lists the requests that a
RECV_REQUEST handed to userspace in full length, `sent` the responses sent on their channels. -/
structure UringState where
  queues : Queues
  routes : Routes
  pending : List PendingRequest
  nextReqId : UInt64
  nextQueueId : UInt32
  tasks : List UringTask
  nextChannel : Channel
  delivered : List Channel
  sent : List (Channel × Response)
deriving DecidableEq, Repr

def UringState.new : UringState := ⟨[], [], [], 1, 1, [], 0, [], []⟩

/-- One critical section, or the atomic step, of a call. Commands that take several locks come in
several actions; `alloc` is the outcome of the allocations of the step and `left` the number of
bytes a copy from or to userspace did not copy. -/
inductive UringAction
  | arrive (request : Request)
  | route (i : Nat) (alloc : Bool)
  | storePending (i : Nat) (channel alloc : Bool)
  | buffer (i : Nat) (alloc : Bool)
  | createQueue (maxPending : UInt32)
  | pushQueue (i : Nat) (alloc : Bool)
  | destroyQueue (queueId : UInt32)
  | addUrl (queueId : UInt32) (url : Bytes) (alloc : Bool)
  | insertUrl (i : Nat) (alloc : Bool)
  | removeUrl (url : Bytes)
  | recvRequest (queueId bufLen : UInt32) (left : Nat)
  | sendResponse (payload : CmdSendResponse)
  | respond (i : Nat) (memory : UInt64 → UInt8) (left : Nat) (alloc : Bool)

namespace UringState

def finish (s : UringState) (i : Nat) : UringState := { s with tasks := s.tasks.eraseIdx i }

def advance (s : UringState) (i : Nat) (t : UringTask) : UringState :=
  { s with tasks := s.tasks.set i t }

def start (s : UringState) (t : UringTask) : UringState := { s with tasks := s.tasks ++ [t] }

def stepRoute (s : UringState) (i : Nat) (request : Request) (reqId : UInt64) (alloc : Bool) :
    UringState :=
  match route s.routes request.path with
  | none => s.finish i
  | some queueId =>
    if alloc then s.advance i (.enqueueing queueId reqId (serializeRequest reqId request))
    else s.finish i

/-- The channel is created and its sender stored. A sender that cannot be stored is dropped, and
the request goes on to its queue all the same. -/
def stepStore (s : UringState) (i : Nat) (queueId : UInt32) (reqId : UInt64) (data : Bytes)
    (channel alloc : Bool) : UringState :=
  if channel then
    { s.advance i (.buffering queueId reqId data s.nextChannel) with
      pending := if alloc then s.pending ++ [⟨reqId, s.nextChannel⟩] else s.pending
      nextChannel := s.nextChannel + 1 }
  else s.finish i

def stepRecv (s : UringState) (queueId bufLen : UInt32) (left : Nat) : UringState :=
  match cmdRecvRequest s.queues queueId bufLen left with
  | (_, queues, none) => { s with queues }
  | (result, queues, some b) =>
    { s with
      queues
      delivered := if result.toInt = b.data.length then b.origin :: s.delivered else s.delivered }

def stepRespond (s : UringState) (i : Nat) (channel : Channel) (reply : Except Error Response) :
    UringState :=
  match reply with
  | .error _ => s.finish i
  | .ok response => { s.finish i with sent := s.sent ++ [(channel, response)] }

def step (s : UringState) : UringAction → Option UringState
  | .arrive request =>
    some { s.start (.routing request s.nextReqId) with nextReqId := s.nextReqId + 1 }
  | .route i alloc =>
    match s.tasks[i]? with
    | some (.routing request reqId) => some (s.stepRoute i request reqId alloc)
    | _ => none
  | .storePending i channel alloc =>
    match s.tasks[i]? with
    | some (.enqueueing queueId reqId data) =>
      some (s.stepStore i queueId reqId data channel alloc)
    | _ => none
  | .buffer i alloc =>
    match s.tasks[i]? with
    | some (.buffering queueId reqId data channel) =>
      some { s.finish i with queues := pushBuffered s.queues queueId ⟨reqId, data, channel⟩ alloc }
    | _ => none
  | .createQueue maxPending =>
    some { s.start (.creating s.nextQueueId (if maxPending = 0 then 256 else maxPending)) with
      nextQueueId := s.nextQueueId + 1 }
  | .pushQueue i alloc =>
    match s.tasks[i]? with
    | some (.creating id maxPending) =>
      some { s.finish i with queues := (pushQueue s.queues id maxPending alloc).2 }
    | _ => none
  | .destroyQueue queueId => some { s with queues := (cmdDestroyQueue s.queues queueId).2 }
  | .addUrl queueId url alloc =>
    some (if (s.queues.any fun q => q.1 = queueId) ∧ alloc then s.start (.adding url queueId) else s)
  | .insertUrl i alloc =>
    match s.tasks[i]? with
    | some (.adding url queueId) =>
      some { s.finish i with routes := (insertUrl s.routes url queueId alloc).2 }
    | _ => none
  | .removeUrl url => some { s with routes := (cmdRemoveUrl s.routes url).2 }
  | .recvRequest queueId bufLen left => some (s.stepRecv queueId bufLen left)
  | .sendResponse payload =>
    match takePending s.pending payload.reqId with
    | none => some s
    | some (channel, pending) => some { s.start (.responding channel payload) with pending }
  | .respond i memory left alloc =>
    match s.tasks[i]? with
    | some (.responding channel payload) =>
      some (s.stepRespond i channel (respond payload memory left alloc))
    | _ => none

section Outcomes

variable {motive : UringState → Prop} {s : UringState} {i : Nat}

/-- A request that is routed goes on to its queue, and its call ends otherwise. -/
@[elab_as_elim]
theorem stepRoute_cases (request : Request) (reqId : UInt64) (alloc : Bool)
    (hfinish : motive (s.finish i))
    (hadvance : ∀ queueId,
      motive (s.advance i (.enqueueing queueId reqId (serializeRequest reqId request)))) :
    motive (s.stepRoute i request reqId alloc) := by
  unfold stepRoute
  split
  next => exact hfinish
  next queueId hroute =>
    split
    · exact hadvance queueId
    · exact hfinish

@[elab_as_elim]
theorem stepStore_cases (queueId : UInt32) (reqId : UInt64) (data : Bytes) (channel alloc : Bool)
    (hfinish : motive (s.finish i))
    (hadvance : ∀ pending, motive { s.advance i (.buffering queueId reqId data s.nextChannel) with
      pending := pending, nextChannel := s.nextChannel + 1 }) :
    motive (s.stepStore i queueId reqId data channel alloc) := by
  unfold stepStore
  split
  · exact hadvance _
  · exact hfinish

@[elab_as_elim]
theorem stepRespond_cases (channel : Channel) (reply : Except Error Response)
    (hfinish : ∀ sent, motive { s.finish i with sent := sent }) :
    motive (s.stepRespond i channel reply) := by
  cases reply with
  | error e => exact hfinish s.sent
  | ok response => exact hfinish _

theorem stepRecv_eq (s : UringState) (queueId bufLen : UInt32) (left : Nat) :
    ∃ delivered, s.stepRecv queueId bufLen left =
      { s with queues := (cmdRecvRequest s.queues queueId bufLen left).2.1, delivered } := by
  unfold stepRecv
  split
  next heq => exact ⟨s.delivered, by rw [heq]⟩
  next heq => exact ⟨_, by rw [heq]⟩

end Outcomes

/-- Everything a step can do, with the call it belongs to. -/
inductive Transition (s : UringState) : UringAction → UringState → Prop
  | arrive (request : Request) :
    Transition s (.arrive request)
      { s.start (.routing request s.nextReqId) with nextReqId := s.nextReqId + 1 }
  | route {i : Nat} {request : Request} {reqId : UInt64} (alloc : Bool)
      (htask : s.tasks[i]? = some (.routing request reqId)) :
    Transition s (.route i alloc) (s.stepRoute i request reqId alloc)
  | storePending {i : Nat} {queueId : UInt32} {reqId : UInt64} {data : Bytes}
      (channel alloc : Bool) (htask : s.tasks[i]? = some (.enqueueing queueId reqId data)) :
    Transition s (.storePending i channel alloc) (s.stepStore i queueId reqId data channel alloc)
  | buffer {i : Nat} {queueId : UInt32} {reqId : UInt64} {data : Bytes} {channel : Channel}
      (alloc : Bool) (htask : s.tasks[i]? = some (.buffering queueId reqId data channel)) :
    Transition s (.buffer i alloc)
      { s.finish i with queues := pushBuffered s.queues queueId ⟨reqId, data, channel⟩ alloc }
  | createQueue (maxPending : UInt32) :
    Transition s (.createQueue maxPending)
      { s.start (.creating s.nextQueueId (if maxPending = 0 then 256 else maxPending)) with
        nextQueueId := s.nextQueueId + 1 }
  | pushQueue {i : Nat} {id maxPending : UInt32} (alloc : Bool)
      (htask : s.tasks[i]? = some (.creating id maxPending)) :
    Transition s (.pushQueue i alloc)
      { s.finish i with queues := (Rko.pushQueue s.queues id maxPending alloc).2 }
  | destroyQueue (queueId : UInt32) :
    Transition s (.destroyQueue queueId)
      { s with queues := (cmdDestroyQueue s.queues queueId).2 }
  | addUrl {queueId : UInt32} (url : Bytes)
      (hqueue : (s.queues.any fun q => q.1 = queueId) = true) :
    Transition s (.addUrl queueId url true) (s.start (.adding url queueId))
  | refuseUrl (queueId : UInt32) (url : Bytes) (alloc : Bool) :
    Transition s (.addUrl queueId url alloc) s
  | insertUrl {i : Nat} {url : Bytes} {queueId : UInt32} (alloc : Bool)
      (htask : s.tasks[i]? = some (.adding url queueId)) :
    Transition s (.insertUrl i alloc)
      { s.finish i with routes := (Rko.insertUrl s.routes url queueId alloc).2 }
  | removeUrl (url : Bytes) :
    Transition s (.removeUrl url) { s with routes := (cmdRemoveUrl s.routes url).2 }
  | recvRequest (queueId bufLen : UInt32) (left : Nat) :
    Transition s (.recvRequest queueId bufLen left) (s.stepRecv queueId bufLen left)
  | sendUnknown {payload : CmdSendResponse}
      (hnone : takePending s.pending payload.reqId = none) :
    Transition s (.sendResponse payload) s
  | sendResponse {payload : CmdSendResponse} {channel : Channel} {pending : List PendingRequest}
      (htake : takePending s.pending payload.reqId = some (channel, pending)) :
    Transition s (.sendResponse payload)
      { s.start (.responding channel payload) with pending }
  | respond {i : Nat} {channel : Channel} {payload : CmdSendResponse} (memory : UInt64 → UInt8)
      (left : Nat) (alloc : Bool) (htask : s.tasks[i]? = some (.responding channel payload)) :
    Transition s (.respond i memory left alloc)
      (s.stepRespond i channel (Rko.respond payload memory left alloc))

theorem transition_of_step {s s' : UringState} {a : UringAction} (h : s.step a = some s') :
    Transition s a s' := by
  cases a with
  | arrive request =>
    cases h
    exact .arrive request
  | createQueue maxPending =>
    cases h
    exact .createQueue maxPending
  | destroyQueue queueId =>
    cases h
    exact .destroyQueue queueId
  | removeUrl url =>
    cases h
    exact .removeUrl url
  | recvRequest queueId bufLen left =>
    cases h
    exact .recvRequest queueId bufLen left
  | addUrl queueId url alloc =>
    cases h
    split
    next hcond =>
      obtain ⟨hqueue, rfl⟩ := hcond
      exact .addUrl url hqueue
    · exact .refuseUrl queueId url alloc
  | route i alloc =>
    simp only [step] at h
    split at h
    next htask =>
      cases h
      exact .route alloc htask
    · cases h
  | storePending i channel alloc =>
    simp only [step] at h
    split at h
    next htask =>
      cases h
      exact .storePending channel alloc htask
    · cases h
  | buffer i alloc =>
    simp only [step] at h
    split at h
    next htask =>
      cases h
      exact .buffer alloc htask
    · cases h
  | pushQueue i alloc =>
    simp only [step] at h
    split at h
    next htask =>
      cases h
      exact .pushQueue alloc htask
    · cases h
  | insertUrl i alloc =>
    simp only [step] at h
    split at h
    next htask =>
      cases h
      exact .insertUrl alloc htask
    · cases h
  | sendResponse payload =>
    simp only [step] at h
    split at h
    next hnone =>
      cases h
      exact .sendUnknown hnone
    next htake =>
      cases h
      exact .sendResponse htake
  | respond i memory left alloc =>
    simp only [step] at h
    split at h
    next htask =>
      cases h
      exact .respond memory left alloc htask
    · cases h

end UringState

def UringAction.allocates : UringAction → Bool
  | .route _ alloc => alloc
  | .storePending _ channel alloc => channel && alloc
  | .buffer _ alloc => alloc
  | .pushQueue _ alloc => alloc
  | .addUrl _ _ alloc => alloc
  | .insertUrl _ alloc => alloc
  | .respond _ _ _ alloc => alloc
  | _ => true

end Rko
