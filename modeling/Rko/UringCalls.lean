import Rko.CallPool
import Rko.UringSystem

namespace Rko

open GuardedRun

/-- The outcomes of the allocations in one call of `handle`. -/
structure HandleOutcome where
  serialized : Bool
  channel : Bool
  stored : Bool
  buffered : Bool
deriving DecidableEq, Repr

inductive UringCall
  | handle (request : Request) (outcome : HandleOutcome)
  | createQueue (maxPending : UInt32) (alloc : Bool)
  | destroyQueue (queueId : UInt32)
  | addUrl (queueId : UInt32) (url : Bytes) (copied pushed : Bool)
  | removeUrl (url : Bytes)
  | recvRequest (queueId bufLen : UInt32) (left : Nat)
  | sendResponse (payload : CmdSendResponse) (memory : UInt64 → UInt8) (left : Nat) (alloc : Bool)

/-- How a call ended: a command with a code, `handle` with a response of its own or waiting for that
of userspace. -/
inductive UringReturn
  | code (c : CInt)
  | replied (status : UInt16)
  | awaiting (channel : Channel)
deriving DecidableEq, Repr

/-- How far a call has come: it has not touched the handler, it is a task of the atomic system, or it
has returned. -/
inductive CallStage
  | idle
  | invoked (call : UringCall)
  | within (call : UringCall) (task : UringTask)
  | returned (call : UringCall) (r : UringReturn)

namespace CallStage

def task : CallStage → Option UringTask
  | .within _ task => some task
  | _ => none

/-- What `handle` makes of the route of its request. -/
def routed (request : Request) (outcome : HandleOutcome) (reqId : UInt64) :
    Option UInt32 → CallStage
  | none => .returned (.handle request outcome) (.replied 404)
  | some queueId =>
    if outcome.serialized then
      .within (.handle request outcome) (.enqueueing queueId reqId (serializeRequest reqId request))
    else .returned (.handle request outcome) (.replied 500)

/-- The step that a call takes in the atomic system, whose task number `n` it is, and where the call
is after it. What the call returns is read off the state in which it takes the step. -/
def go (s : UringState) (n : Nat) : CallStage → Option (UringAction × CallStage)
  | .invoked (.handle request o) =>
    some (.arrive request, .within (.handle request o) (.routing request s.nextReqId))
  | .within (.handle _ o) (.routing request reqId) =>
    some (.route n o.serialized, routed request o reqId (route s.routes request.path))
  | .within (.handle request o) (.enqueueing queueId reqId data) =>
    some (.storePending n o.channel o.stored,
      if o.channel then .within (.handle request o) (.buffering queueId reqId data s.nextChannel)
      else .returned (.handle request o) (.replied 500))
  | .within (.handle request o) (.buffering _ _ _ channel) =>
    some (.buffer n o.buffered, .returned (.handle request o) (.awaiting channel))
  | .invoked (.createQueue maxPending alloc) =>
    some (.createQueue maxPending, .within (.createQueue maxPending alloc)
      (.creating s.nextQueueId (if maxPending = 0 then 256 else maxPending)))
  | .within (.createQueue maxPending alloc) (.creating id max) =>
    some (.pushQueue n alloc, .returned (.createQueue maxPending alloc)
      (.code (pushQueue s.queues id max alloc).1))
  | .invoked (.destroyQueue queueId) =>
    some (.destroyQueue queueId, .returned (.destroyQueue queueId)
      (.code (cmdDestroyQueue s.queues queueId).1))
  | .invoked (.addUrl queueId url copied pushed) =>
    some (.addUrl queueId url copied,
      if s.queues.any fun q => q.1 = queueId then
        if copied then .within (.addUrl queueId url copied pushed) (.adding url queueId)
        else .returned (.addUrl queueId url copied pushed) (.code Error.ENOMEM.toErrno)
      else .returned (.addUrl queueId url copied pushed) (.code Error.ENOENT.toErrno))
  | .within (.addUrl _ _ copied pushed) (.adding url queueId) =>
    some (.insertUrl n pushed, .returned (.addUrl queueId url copied pushed)
      (.code (insertUrl s.routes url queueId pushed).1))
  | .invoked (.removeUrl url) =>
    some (.removeUrl url, .returned (.removeUrl url) (.code (cmdRemoveUrl s.routes url).1))
  | .invoked (.recvRequest queueId bufLen left) =>
    some (.recvRequest queueId bufLen left, .returned (.recvRequest queueId bufLen left)
      (.code (cmdRecvRequest s.queues queueId bufLen left).1))
  | .invoked (.sendResponse payload memory left alloc) =>
    some (.sendResponse payload,
      match takePending s.pending payload.reqId with
      | none => .returned (.sendResponse payload memory left alloc) (.code Error.ENOENT.toErrno)
      | some (channel, _) =>
        .within (.sendResponse payload memory left alloc) (.responding channel payload))
  | .within (.sendResponse _ memory left alloc) (.responding _ payload) =>
    some (.respond n memory left alloc,
      match respond payload memory left alloc with
      | .error e => .returned (.sendResponse payload memory left alloc) (.code e.toErrno)
      | .ok _ => .returned (.sendResponse payload memory left alloc) (.code 0))
  | _ => none

end CallStage

/-- The atomic system, and the calls that the users `ι` make on it. -/
structure UringCalls (ι : Type) where
  state : UringState
  stage : ι → CallStage

inductive CallAction (ι : Type)
  | call (i : ι) (x : UringCall)
  | act (i : ι) (n : Nat)

namespace UringCalls

def new (ι : Type) : UringCalls ι := ⟨.new, fun _ => .idle⟩

variable {ι : Type} [DecidableEq ι]

def step (y : UringCalls ι) : CallAction ι → Option (UringCalls ι)
  | .call i x =>
    match y.stage i with
    | .idle | .returned .. => some { y with stage := Function.update y.stage i (.invoked x) }
    | _ => none
  | .act i n =>
    if ∀ t ∈ (y.stage i).task, y.state.tasks[n]? = some t then
      ((y.stage i).go y.state n).bind fun next =>
        (y.state.step next.1).map fun s => ⟨s, Function.update y.stage i next.2⟩
    else none

theorem step_act {y : UringCalls ι} {i : ι} {n : Nat} {a : UringAction} {stage : CallStage}
    {s : UringState} (htask : ∀ t ∈ (y.stage i).task, y.state.tasks[n]? = some t)
    (hgo : (y.stage i).go y.state n = some (a, stage)) (hs : y.state.step a = some s) :
    y.step (.act i n) = some ⟨s, Function.update y.stage i stage⟩ := by
  rw [step, if_pos htask, hgo, Option.bind_some, hs, Option.map_some]

theorem state_of_step {y y' : UringCalls ι} {b : CallAction ι} (h : y.step b = some y') :
    ∃ actions, run UringState.step y.state actions = some y'.state := by
  cases b with
  | call i x =>
    rw [step] at h
    split at h
    · cases h
      exact ⟨[], rfl⟩
    · cases h
      exact ⟨[], rfl⟩
    · cases h
  | act i n =>
    obtain ⟨-, h⟩ := Option.ite_none_right_eq_some.mp h
    obtain ⟨next, -, h⟩ := Option.bind_eq_some_iff.mp h
    obtain ⟨s, hs, rfl⟩ := Option.map_eq_some_iff.mp h
    exact ⟨[next.1], by rw [run, hs, Option.bind_some, run]⟩

/-- Whatever the calls, their steps are a run of the atomic system. -/
theorem state_of_run {y y' : UringCalls ι} {bs : List (CallAction ι)}
    (hrun : run step y bs = some y') :
    ∃ actions, run UringState.step y.state actions = some y'.state := by
  induction bs generalizing y with
  | nil =>
    cases Option.some.inj hrun
    exact ⟨[], rfl⟩
  | cons b bs ih =>
    obtain ⟨y₁, hy₁, hrun₁⟩ := Option.bind_eq_some_iff.mp hrun
    obtain ⟨actions, hactions⟩ := state_of_step hy₁
    obtain ⟨more, hmore⟩ := ih hrun₁
    exact ⟨actions ++ more, by rw [run_append, hactions, Option.bind_some, hmore]⟩

end UringCalls

end Rko
