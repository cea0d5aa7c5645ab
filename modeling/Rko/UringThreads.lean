import Rko.SimpleMutex
import Rko.UringCalls
import Rko.UringSections

namespace Rko

open CriticalSection

/-- The counters of the handler; `sent` lists what went through the channels. -/
structure UringAtomics where
  nextReqId : UInt64
  nextQueueId : UInt32
  sent : List (Channel × Response)
deriving DecidableEq, Repr

/-- A thread between two critical sections. -/
inductive UringPlace
  | idle
  | returned (r : UringReturn)
  | entry (call : UringCall)
  | routing (request : Request) (reqId : UInt64) (outcome : HandleOutcome)
  | enqueueing (queueId : UInt32) (reqId : UInt64) (data : Bytes) (outcome : HandleOutcome)
  | buffering (queueId : UInt32) (reqId : UInt64) (data : Bytes) (channel : Channel)
      (outcome : HandleOutcome)
  | creating (id maxPending : UInt32) (alloc : Bool)
  | adding (url : Bytes) (queueId : UInt32) (pushed : Bool)
  | responding (channel : Channel) (payload : CmdSendResponse) (memory : UInt64 → UInt8) (left : Nat)
      (alloc : Bool)

def afterRoute (request : Request) (reqId : UInt64) (outcome : HandleOutcome) :
    Option UInt32 → UringPlace
  | none => .returned (.replied 404)
  | some queueId =>
    if outcome.serialized then
      .enqueueing queueId reqId (serializeRequest reqId request) outcome
    else .returned (.replied 500)

def afterTake (payload : CmdSendResponse) (memory : UInt64 → UInt8) (left : Nat) (alloc : Bool) :
    Option Channel → UringPlace
  | none => .returned (.code Error.ENOENT.toErrno)
  | some channel => .responding channel payload memory left alloc

def afterCheck (url : Bytes) (queueId : UInt32) (copied pushed : Bool) (found : Bool) : UringPlace :=
  if !found then .returned (.code Error.ENOENT.toErrno)
  else if !copied then .returned (.code Error.ENOMEM.toErrno)
  else .adding url queueId pushed

def sendReply (channel : Channel) (reply : Except Error Response) (g : UringAtomics) :
    UringPlace × UringAtomics :=
  match reply with
  | .error e => (.returned (.code e.toErrno), g)
  | .ok response => (.returned (.code 0), { g with sent := g.sent ++ [(channel, response)] })

def UringPlace.next : UringPlace → Continuation UringLock UringLock.Data UringAtomics UringPlace
  | .idle => .finished
  | .returned _ => .finished
  | .entry (.handle request outcome) => .atomic fun g =>
    (.routing request g.nextReqId outcome, { g with nextReqId := g.nextReqId + 1 })
  | .routing request reqId outcome =>
    .lock .routes (afterRoute request reqId outcome <$> routeSection request.path)
  | .enqueueing queueId reqId data outcome =>
    if outcome.channel then
      .lock .pending ((fun channel => .buffering queueId reqId data channel outcome) <$>
        storeSection reqId outcome.stored)
    else .atomic fun g => (.returned (.replied 500), g)
  | .buffering queueId reqId data channel outcome =>
    .lock .queues ((fun _ => .returned (.awaiting channel)) <$>
      pushBufferedSection queueId ⟨reqId, data, channel⟩ outcome.buffered)
  | .entry (.createQueue maxPending alloc) => .atomic fun g =>
    (.creating g.nextQueueId (if maxPending = 0 then 256 else maxPending) alloc,
      { g with nextQueueId := g.nextQueueId + 1 })
  | .creating id maxPending alloc =>
    .lock .queues ((fun c => .returned (.code c)) <$> pushQueueSection id maxPending alloc)
  | .entry (.destroyQueue queueId) =>
    .lock .queues ((fun c => .returned (.code c)) <$> destroyQueueSection queueId)
  | .entry (.addUrl queueId url copied pushed) =>
    .lock .queues (afterCheck url queueId copied pushed <$> anyQueueSection queueId)
  | .adding url queueId pushed =>
    .lock .routes ((fun c => .returned (.code c)) <$> insertUrlSection url queueId pushed)
  | .entry (.removeUrl url) =>
    .lock .routes ((fun c => .returned (.code c)) <$> removeUrlSection url)
  | .entry (.recvRequest queueId bufLen left) =>
    .lock .queues ((fun c => .returned (.code c)) <$> recvRequestSection queueId bufLen left)
  | .entry (.sendResponse payload memory left alloc) =>
    .lock .pending (afterTake payload memory left alloc <$> takeSection payload.reqId)
  | .responding channel payload memory left alloc =>
    .atomic (sendReply channel (respond payload memory left alloc))

/-- The commands of the handler and `handle`, run by any number of threads. -/
def uringCode : ThreadCode UringLock UringLock.Data UringAtomics UringCall UringPlace where
  start := .entry
  next := UringPlace.next

/-- A thread at this place has come as far as a call at that stage, and has returned the same. -/
def UringPlace.Shows : UringPlace → CallStage → Prop
  | .idle, stage => stage = .idle
  | .returned r, stage => ∃ call, stage = .returned call r
  | .entry call, stage => stage = .invoked call
  | .routing request reqId outcome, stage =>
    stage = .within (.handle request outcome) (.routing request reqId)
  | .enqueueing queueId reqId data outcome, stage =>
    ∃ request, stage = .within (.handle request outcome) (.enqueueing queueId reqId data)
  | .buffering queueId reqId data channel outcome, stage =>
    ∃ request, stage = .within (.handle request outcome) (.buffering queueId reqId data channel)
  | .creating id maxPending alloc, stage =>
    ∃ asked, stage = .within (.createQueue asked alloc) (.creating id maxPending)
  | .adding url queueId pushed, stage =>
    ∃ copied, stage = .within (.addUrl queueId url copied pushed) (.adding url queueId)
  | .responding channel payload memory left alloc, stage =>
    stage = .within (.sendResponse payload memory left alloc) (.responding channel payload)

/-- Every step of a call brings it nearer to its end. -/
def UringPlace.rank : UringPlace → Nat
  | .idle => 0
  | .returned _ => 0
  | .entry _ => 4
  | .routing .. => 3
  | .enqueueing .. => 2
  | _ => 1

/-- The atomic system with the data of the threads. -/
def UringState.assemble (data : (k : UringLock) → k.Data) (g : UringAtomics)
    (tasks : List UringTask) (delivered : List Channel) : UringState where
  queues := data .queues
  routes := data .routes
  pending := (data .pending).requests
  nextReqId := g.nextReqId
  nextQueueId := g.nextQueueId
  tasks := tasks
  nextChannel := (data .pending).nextChannel
  delivered := delivered
  sent := g.sent

section Refinement

variable {ι : Type} [DecidableEq ι]

/-- The atomic system has the data of the serial one, the calls have come equally far in both, and
the tasks are those of the calls, each once. -/
structure Mirrors (c : Serial ι UringLock UringLock.Data UringAtomics UringPlace)
    (y : UringCalls ι) : Prop where
  shows : ∀ i, (c.place i).Shows (y.stage i)
  tasks : ∃ roster delivered, CallPool.Enrols roster (fun i => (y.stage i).task) ∧
    y.state = .assemble c.data c.atomics (roster.map Prod.snd) delivered

section Stages

variable {place : ι → UringPlace} {stages : ι → CallStage} {roster : List (ι × UringTask)} {i : ι}
  {n : Nat} {t : UringPlace} {stage : CallStage} {u u' : UringTask}

theorem shows_update (h : ∀ j, (place j).Shows (stages j)) (ht : t.Shows stage) (j : ι) :
    (Function.update place i t j).Shows (Function.update stages i stage j) := by
  by_cases hj : j = i
  · subst hj
    rw [Function.update_self, Function.update_self]
    exact ht
  · rw [Function.update_of_ne hj, Function.update_of_ne hj]
    exact h j

theorem tasks_update (stages : ι → CallStage) (i : ι) (stage : CallStage) :
    (fun j => (Function.update stages i stage j).task) =
      Function.update (fun j => (stages j).task) i stage.task := by
  funext j
  by_cases hj : j = i
  · subst hj
    rw [Function.update_self, Function.update_self]
  · rw [Function.update_of_ne hj, Function.update_of_ne hj]

theorem enrols_stay (h : CallPool.Enrols roster fun j => (stages j).task)
    (hi : (stages i).task = none) (ht : stage.task = none) :
    CallPool.Enrols roster fun j => (Function.update stages i stage j).task := by
  have hsame : Function.update (fun j => (stages j).task) i none = fun j => (stages j).task :=
    Function.update_eq_self_iff.mpr hi.symm
  rw [tasks_update, ht, hsame]
  exact h

theorem enrols_begin (h : CallPool.Enrols roster fun j => (stages j).task)
    (hi : (stages i).task = none) (ht : stage.task = some u) :
    CallPool.Enrols (roster ++ [(i, u)]) fun j => (Function.update stages i stage j).task := by
  rw [tasks_update, ht]
  exact h.concat hi u

theorem enrols_advance (h : CallPool.Enrols roster fun j => (stages j).task)
    (hn : roster[n]? = some (i, u)) (ht : stage.task = some u') :
    CallPool.Enrols (roster.set n (i, u')) fun j => (Function.update stages i stage j).task := by
  rw [tasks_update, ht]
  exact h.set hn u'

theorem enrols_finish (h : CallPool.Enrols roster fun j => (stages j).task)
    (hn : roster[n]? = some (i, u)) (ht : stage.task = none) :
    CallPool.Enrols (roster.eraseIdx n) fun j => (Function.update stages i stage j).task := by
  rw [tasks_update, ht]
  exact h.eraseIdx hn

omit [DecidableEq ι] in
theorem enrols_task (h : CallPool.Enrols roster fun j => (stages j).task)
    (hi : (stages i).task = some u) :
    ∃ n : Nat, roster[n]? = some (i, u) ∧ (roster.map Prod.snd)[n]? = some u := by
  obtain ⟨n, hn⟩ := h.getElem? hi
  exact ⟨n, hn, by rw [List.getElem?_map, hn, Option.map_some]⟩

end Stages

variable {c c' : Serial ι UringLock UringLock.Data UringAtomics UringPlace} {y : UringCalls ι}

/-- One step of a call, in both systems. -/
theorem Mirrors.act {i : ι} {data data' : (k : UringLock) → k.Data} {g g' : UringAtomics}
    {place : ι → UringPlace} {stages : ι → CallStage} {roster roster' : List (ι × UringTask)}
    {delivered : List Channel} (delivered' : List Channel) {n : Nat} {a : UringAction}
    {t : UringPlace} {stage : CallStage} (hshows : ∀ j, (place j).Shows (stages j))
    (htask : ∀ u ∈ (stages i).task, (roster.map Prod.snd)[n]? = some u)
    (hgo : (stages i).go (.assemble data g (roster.map Prod.snd) delivered) n = some (a, stage))
    (hs : (UringState.assemble data g (roster.map Prod.snd) delivered).step a =
      some (.assemble data' g' (roster'.map Prod.snd) delivered'))
    (hroster : CallPool.Enrols roster' fun j => (Function.update stages i stage j).task)
    (ht : t.Shows stage) :
    ∃ n y', UringCalls.step ⟨.assemble data g (roster.map Prod.snd) delivered, stages⟩ (.act i n) =
      some y' ∧ Mirrors ⟨data', g', Function.update place i t⟩ y' :=
  ⟨n, _, UringCalls.step_act htask hgo hs, shows_update hshows ht, roster', delivered', hroster, rfl⟩

theorem Mirrors.atomic {i : ι} (h : Mirrors c y)
    (hstep : c.step uringCode (.atomic i) = some c') :
    ∃ n y', y.step (.act i n) = some y' ∧ Mirrors c' y' := by
  obtain ⟨hshows, roster, delivered, hroster, hstate⟩ := h
  obtain ⟨s, stages⟩ := y
  simp only at hshows hroster hstate
  subst hstate
  obtain ⟨f, hnext, rfl⟩ := Serial.step_atomic hstep
  replace hnext : (c.place i).next = .atomic f := hnext
  have hi := hshows i
  cases hp : c.place i with
  | entry call =>
    rw [hp] at hnext hi
    replace hi : stages i = .invoked call := hi
    have hout : (stages i).task = none := by
      rw [hi]
      rfl
    have hnone : ∀ u ∈ (stages i).task, (roster.map Prod.snd)[0]? = some u := by simp [hout]
    cases call with
    | handle request outcome =>
      cases hnext
      refine Mirrors.act delivered hshows hnone (congrArg (CallStage.go _ _) hi) ?_
        (enrols_begin hroster hout rfl) rfl
      simp [UringState.step, UringState.assemble, UringState.start]
    | createQueue maxPending alloc =>
      cases hnext
      refine Mirrors.act delivered hshows hnone (congrArg (CallStage.go _ _) hi) ?_
        (enrols_begin hroster hout rfl) ⟨_, rfl⟩
      simp [UringState.step, UringState.assemble, UringState.start]
    | destroyQueue queueId => cases hnext
    | addUrl queueId url copied pushed => cases hnext
    | removeUrl url => cases hnext
    | recvRequest queueId bufLen left => cases hnext
    | sendResponse payload memory left alloc => cases hnext
  | enqueueing queueId reqId data outcome =>
    rw [hp] at hnext hi
    obtain ⟨request, hi⟩ := hi
    rw [UringPlace.next] at hnext
    split at hnext
    · cases hnext
    next hchannel =>
      cases hnext
      obtain ⟨n, hn, htask⟩ := enrols_task hroster (i := i) (by rw [hi, CallStage.task])
      refine Mirrors.act (n := n) delivered hshows (by simp [hi, CallStage.task, htask])
        (by rw [hi, CallStage.go, if_neg hchannel]) ?_ (enrols_finish hroster hn rfl) ⟨_, rfl⟩
      simp only [UringState.step, UringState.assemble, htask, UringState.stepStore]
      simp [UringState.finish, List.eraseIdx_map, hchannel]
  | responding channel payload memory left alloc =>
    rw [hp] at hnext hi
    cases hnext
    replace hi : stages i = .within (.sendResponse payload memory left alloc)
      (.responding channel payload) := hi
    obtain ⟨n, hn, htask⟩ := enrols_task hroster (i := i) (by rw [hi, CallStage.task])
    have hown : ∀ u ∈ (stages i).task, (roster.map Prod.snd)[n]? = some u := by
      simp [hi, CallStage.task, htask]
    cases hrespond : respond payload memory left alloc with
    | error e =>
      refine Mirrors.act delivered hshows hown (by rw [hi, CallStage.go, hrespond]) ?_
        (enrols_finish hroster hn rfl) ⟨_, rfl⟩
      simp only [UringState.step, UringState.assemble, htask]
      simp [sendReply, UringState.stepRespond, UringState.finish, List.eraseIdx_map, hrespond]
    | ok response =>
      refine Mirrors.act delivered hshows hown (by rw [hi, CallStage.go, hrespond]) ?_
        (enrols_finish hroster hn rfl) ⟨_, rfl⟩
      simp only [UringState.step, UringState.assemble, htask]
      simp [sendReply, UringState.stepRespond, UringState.finish, List.eraseIdx_map, hrespond]
  | idle =>
    rw [hp] at hnext
    cases hnext
  | returned r =>
    rw [hp] at hnext
    cases hnext
  | routing request reqId outcome =>
    rw [hp] at hnext
    cases hnext
  | buffering queueId reqId data channel outcome =>
    rw [hp] at hnext
    cases hnext
  | creating id maxPending alloc =>
    rw [hp] at hnext
    cases hnext
  | adding url queueId pushed =>
    rw [hp] at hnext
    cases hnext

section Critical

variable {i : ι} {stages : ι → CallStage} {roster : List (ι × UringTask)} {delivered : List Channel}
  {k : UringLock} {body : Section k.Data UringPlace}

/-- The first critical section of a command. -/
theorem Mirrors.lock_entry (hshows : ∀ j, (c.place j).Shows (stages j))
    (hroster : CallPool.Enrols roster fun j => (stages j).task) {call : UringCall}
    (hi : stages i = .invoked call) (hnext : (UringPlace.entry call).next = .lock k body) :
    ∃ n y', UringCalls.step ⟨.assemble c.data c.atomics (roster.map Prod.snd) delivered, stages⟩
        (.act i n) = some y' ∧
      Mirrors { c with
        data := Function.update c.data k (body.run (c.data k)).2
        place := Function.update c.place i (body.run (c.data k)).1 } y' := by
  have hout : (stages i).task = none := by
    rw [hi]
    rfl
  have hnone : ∀ u ∈ (stages i).task, (roster.map Prod.snd)[0]? = some u := by simp [hout]
  cases call with
  | handle request outcome => cases hnext
  | createQueue maxPending alloc => cases hnext
  | destroyQueue queueId =>
    cases hnext
    simp only [Section.run_map, run_destroyQueueSection]
    refine Mirrors.act delivered hshows hnone (congrArg (CallStage.go _ _) hi) ?_
      (enrols_stay hroster hout rfl) ⟨_, rfl⟩
    simp [UringState.step, UringState.assemble]
  | addUrl queueId url copied pushed =>
    cases hnext
    simp only [Section.run_map, run_anyQueueSection, Function.update_eq_self]
    cases hany : (c.data .queues).any fun q => q.1 = queueId with
    | false =>
      refine Mirrors.act delivered hshows hnone
        (by rw [hi, CallStage.go, UringState.assemble, hany]; rfl) ?_
        (enrols_stay hroster hout rfl) ⟨_, rfl⟩
      simp [UringState.step, UringState.assemble, hany]
    | true =>
      cases copied with
      | false =>
        refine Mirrors.act delivered hshows hnone
          (by rw [hi, CallStage.go, UringState.assemble, hany]; rfl) ?_
          (enrols_stay hroster hout rfl) ⟨_, rfl⟩
        simp [UringState.step, UringState.assemble]
      | true =>
        refine Mirrors.act delivered hshows hnone
          (by rw [hi, CallStage.go, UringState.assemble, hany]; rfl) ?_
          (enrols_begin hroster hout rfl) ⟨_, rfl⟩
        simp [UringState.step, UringState.assemble, UringState.start, hany]
  | removeUrl url =>
    cases hnext
    simp only [Section.run_map, run_removeUrlSection]
    refine Mirrors.act delivered hshows hnone (congrArg (CallStage.go _ _) hi) ?_
      (enrols_stay hroster hout rfl) ⟨_, rfl⟩
    simp [UringState.step, UringState.assemble]
  | recvRequest queueId bufLen left =>
    cases hnext
    simp only [Section.run_map, run_recvRequestSection]
    obtain ⟨delivered', hrecv⟩ := UringState.stepRecv_eq
      (.assemble c.data c.atomics (roster.map Prod.snd) delivered) queueId bufLen left
    refine Mirrors.act delivered' hshows hnone (congrArg (CallStage.go _ _) hi) ?_
      (enrols_stay hroster hout rfl) ⟨_, rfl⟩
    rw [UringState.step, hrecv]
    simp [UringState.assemble]
  | sendResponse payload memory left alloc =>
    cases hnext
    simp only [Section.run_map]
    cases htake : takePending (c.data .pending).requests payload.reqId with
    | none =>
      rw [run_takeSection_none htake]
      refine Mirrors.act delivered hshows hnone
        (by rw [hi, CallStage.go, UringState.assemble, htake]) ?_
        (enrols_stay hroster hout rfl) ⟨_, rfl⟩
      simp [UringState.step, UringState.assemble, htake]
    | some taken =>
      obtain ⟨channel, requests⟩ := taken
      rw [run_takeSection_some htake]
      refine Mirrors.act delivered hshows hnone
        (by rw [hi, CallStage.go, UringState.assemble, htake]) ?_
        (enrols_begin hroster hout rfl) rfl
      simp [UringState.step, UringState.assemble, UringState.start, htake]

/-- `handle` looks up the queue of its request. -/
theorem Mirrors.lock_routing (hshows : ∀ j, (c.place j).Shows (stages j))
    (hroster : CallPool.Enrols roster fun j => (stages j).task) {request : Request}
    {reqId : UInt64} {outcome : HandleOutcome}
    (hi : stages i = .within (.handle request outcome) (.routing request reqId))
    (hnext : (UringPlace.routing request reqId outcome).next = .lock k body) :
    ∃ n y', UringCalls.step ⟨.assemble c.data c.atomics (roster.map Prod.snd) delivered, stages⟩
        (.act i n) = some y' ∧
      Mirrors { c with
        data := Function.update c.data k (body.run (c.data k)).2
        place := Function.update c.place i (body.run (c.data k)).1 } y' := by
  cases hnext
  obtain ⟨n, hn, htask⟩ := enrols_task hroster (i := i) (by rw [hi, CallStage.task])
  have hown : ∀ u ∈ (stages i).task, (roster.map Prod.snd)[n]? = some u := by
    simp [hi, CallStage.task, htask]
  simp only [Section.run_map, run_routeSection, Function.update_eq_self]
  cases hroute : route (c.data .routes) request.path with
  | none =>
    refine Mirrors.act delivered hshows hown
      (by rw [hi, CallStage.go, UringState.assemble, hroute, CallStage.routed]) ?_
      (enrols_finish hroster hn rfl) ⟨_, rfl⟩
    simp only [UringState.step, UringState.assemble, htask, UringState.stepRoute, hroute]
    simp [UringState.finish, List.eraseIdx_map]
  | some queueId =>
    by_cases hser : outcome.serialized = true
    · rw [afterRoute, if_pos hser]
      refine Mirrors.act delivered hshows hown
        (by rw [hi, CallStage.go, UringState.assemble, hroute, CallStage.routed, if_pos hser]) ?_
        (enrols_advance hroster hn rfl) ⟨_, rfl⟩
      simp only [UringState.step, UringState.assemble, htask, UringState.stepRoute, hroute]
      simp [UringState.advance, List.map_set, hser]
    · rw [afterRoute, if_neg hser]
      refine Mirrors.act delivered hshows hown
        (by rw [hi, CallStage.go, UringState.assemble, hroute, CallStage.routed, if_neg hser]) ?_
        (enrols_finish hroster hn rfl) ⟨_, rfl⟩
      simp only [UringState.step, UringState.assemble, htask, UringState.stepRoute, hroute]
      simp [UringState.finish, List.eraseIdx_map, hser]

end Critical

theorem Mirrors.critical {i : ι} (h : Mirrors c y)
    (hstep : c.step uringCode (.critical i) = some c') :
    ∃ n y', y.step (.act i n) = some y' ∧ Mirrors c' y' := by
  obtain ⟨hshows, roster, delivered, hroster, hstate⟩ := h
  obtain ⟨s, stages⟩ := y
  simp only at hshows hroster hstate
  subst hstate
  obtain ⟨k, body, hnext, rfl⟩ := Serial.step_critical hstep
  replace hnext : (c.place i).next = .lock k body := hnext
  have hi := hshows i
  cases hp : c.place i with
  | entry call =>
    rw [hp] at hnext hi
    exact Mirrors.lock_entry hshows hroster hi hnext
  | routing request reqId outcome =>
    rw [hp] at hnext hi
    exact Mirrors.lock_routing hshows hroster hi hnext
  | enqueueing queueId reqId data outcome =>
    rw [hp] at hnext hi
    obtain ⟨request, hi⟩ := hi
    rw [UringPlace.next] at hnext
    split at hnext
    next hchannel =>
      cases hnext
      obtain ⟨n, hn, htask⟩ := enrols_task hroster (i := i) (by rw [hi, CallStage.task])
      refine Mirrors.act (n := n) delivered hshows (by simp [hi, CallStage.task, htask])
        (by rw [hi, CallStage.go, if_pos hchannel]; rfl) ?_ (enrols_advance hroster hn rfl) ⟨_, rfl⟩
      simp only [UringState.step, UringState.assemble, htask, UringState.stepStore]
      simp [UringState.advance, List.map_set, storeSection, Section.run, hchannel]
    · cases hnext
  | buffering queueId reqId data channel outcome =>
    rw [hp] at hnext hi
    cases hnext
    obtain ⟨request, hi⟩ := hi
    obtain ⟨n, hn, htask⟩ := enrols_task hroster (i := i) (by rw [hi, CallStage.task])
    simp only [Section.run_map, run_pushBufferedSection]
    refine Mirrors.act (n := n) delivered hshows (by simp [hi, CallStage.task, htask])
      (congrArg (CallStage.go _ _) hi) ?_ (enrols_finish hroster hn rfl) ⟨_, rfl⟩
    simp only [UringState.step, UringState.assemble, htask]
    simp [UringState.finish, List.eraseIdx_map]
  | creating id maxPending alloc =>
    rw [hp] at hnext hi
    cases hnext
    obtain ⟨asked, hi⟩ := hi
    obtain ⟨n, hn, htask⟩ := enrols_task hroster (i := i) (by rw [hi, CallStage.task])
    simp only [Section.run_map, run_pushQueueSection]
    refine Mirrors.act (n := n) delivered hshows (by simp [hi, CallStage.task, htask])
      (congrArg (CallStage.go _ _) hi) ?_ (enrols_finish hroster hn rfl) ⟨_, rfl⟩
    simp only [UringState.step, UringState.assemble, htask]
    simp [UringState.finish, List.eraseIdx_map]
  | adding url queueId pushed =>
    rw [hp] at hnext hi
    cases hnext
    obtain ⟨copied, hi⟩ := hi
    obtain ⟨n, hn, htask⟩ := enrols_task hroster (i := i) (by rw [hi, CallStage.task])
    simp only [Section.run_map, run_insertUrlSection]
    refine Mirrors.act (n := n) delivered hshows (by simp [hi, CallStage.task, htask])
      (congrArg (CallStage.go _ _) hi) ?_ (enrols_finish hroster hn rfl) ⟨_, rfl⟩
    simp only [UringState.step, UringState.assemble, htask]
    simp [UringState.finish, List.eraseIdx_map]
  | responding channel payload memory left alloc =>
    rw [hp] at hnext
    cases hnext
  | idle =>
    rw [hp] at hnext
    cases hnext
  | returned r =>
    rw [hp] at hnext
    cases hnext

/-- A thread that is done with its calls has no lock to take and no counter to read. -/
theorem next_eq_finished {t : UringPlace} (h : t.next = .finished) :
    t = .idle ∨ ∃ r, t = .returned r := by
  cases t with
  | idle => exact Or.inl rfl
  | returned r => exact Or.inr ⟨r, rfl⟩
  | entry call => cases call <;> cases h
  | enqueueing queueId reqId data outcome =>
    rw [UringPlace.next] at h
    split at h <;> cases h
  | routing request reqId outcome => cases h
  | buffering queueId reqId data channel outcome => cases h
  | creating id maxPending alloc => cases h
  | adding url queueId pushed => cases h
  | responding channel payload memory left alloc => cases h

theorem Mirrors.call {i : ι} {x : UringCall} (h : Mirrors c y)
    (hstep : c.step uringCode (.call i x) = some c') :
    ∃ y', y.step (.call i x) = some y' ∧ Mirrors c' y' := by
  obtain ⟨hshows, roster, delivered, hroster, hstate⟩ := h
  obtain ⟨hnext, rfl⟩ := Serial.step_call hstep
  have hrest : (y.stage i).task = none ∧
      y.step (.call i x) = some { y with stage := Function.update y.stage i (.invoked x) } := by
    have hi := hshows i
    rcases next_eq_finished hnext with hp | ⟨r, hp⟩
    · rw [hp] at hi
      replace hi : y.stage i = .idle := hi
      exact ⟨by rw [hi]; rfl, by simp only [UringCalls.step, hi]⟩
    · rw [hp] at hi
      obtain ⟨call, hi⟩ := hi
      exact ⟨by rw [hi]; rfl, by simp only [UringCalls.step, hi]⟩
  exact ⟨_, hrest.2, shows_update hshows rfl, roster, delivered, enrols_stay hroster hrest.1 rfl,
    hstate⟩

/-- The steps of the calls that a step of a thread stands for: a call for itself, an atomic step and
a round of `lock` that succeeds for the next step of the thread's own call. -/
def ThreadAction.StandsFor : ThreadAction ι UringCall → List (CallAction ι) → Prop
  | .call i x, bs => bs = [.call i x]
  | .atomic i, bs => ∃ n, bs = [.act i n]
  | .attempt i _, bs => bs = [] ∨ ∃ n, bs = [.act i n]
  | .access _, bs => bs = []
  | .unlock _, bs => bs = []

def uringData : (k : UringLock) → k.Data
  | .queues => []
  | .routes => []
  | .pending => ⟨[], 0⟩

/-- The handler of the threads `ι` before their first call. -/
def uringNew (ι : Type) : Threads ι UringLock UringLock.Data UringAtomics UringPlace :=
  .new uringData ⟨1, 1, []⟩ fun _ => .idle

/-- Data that nobody has locked is that of the atomic system, and so are the counters and the
responses sent. A thread that holds no lock is where its call is, and the tasks are those of the
calls, each once. -/
structure Observes (x : Threads ι UringLock UringLock.Data UringAtomics UringPlace)
    (y : UringCalls ι) : Prop where
  queues : (x.mutex .queues).locked = false → (x.mutex .queues).data = y.state.queues
  routes : (x.mutex .routes).locked = false → (x.mutex .routes).data = y.state.routes
  pending : (x.mutex .pending).locked = false → (x.mutex .pending).data.requests = y.state.pending
  nextReqId : x.atomics.nextReqId = y.state.nextReqId
  nextQueueId : x.atomics.nextQueueId = y.state.nextQueueId
  sent : x.atomics.sent = y.state.sent
  calls : ∀ i t, x.phase i = .outside t → t.Shows (y.stage i)
  tasks : ∃ roster, CallPool.Enrols roster (fun i => (y.stage i).task) ∧
    y.state.tasks = roster.map Prod.snd

variable {x x' : Threads ι UringLock UringLock.Data UringAtomics UringPlace}

omit [DecidableEq ι] in
theorem observes (hx : x.Settles c) (h : Mirrors c y) : Observes x y := by
  obtain ⟨hshows, roster, delivered, hroster, hstate⟩ := h
  refine ⟨fun hfree => ?_, fun hfree => ?_, fun hfree => ?_, ?_, ?_, ?_, fun i t hphase => ?_,
    roster, hroster, ?_⟩
  · rw [hx.free hfree, hstate]
    rfl
  · rw [hx.free hfree, hstate]
    rfl
  · rw [hx.free hfree, hstate]
    rfl
  · rw [hx.atomics, hstate]
    rfl
  · rw [hx.atomics, hstate]
    rfl
  · rw [hx.atomics, hstate]
    rfl
  · rw [← hx.outside hphase]
    exact hshows i
  · rw [hstate]
    rfl

theorem run_singleton {y y' : UringCalls ι} {b : CallAction ι} (h : y.step b = some y') :
    GuardedRun.run UringCalls.step y [b] = some y' := by
  rw [GuardedRun.run, h, Option.bind_some, GuardedRun.run]

/-- The steps of the serial system that a step of a thread stands for are steps of the calls. -/
theorem Mirrors.run {a : ThreadAction ι UringCall} {bs : List (SerialAction ι UringCall)}
    (h : Mirrors c y) (hstands : a.Stands bs)
    (hrun : GuardedRun.run (Serial.step uringCode) c bs = some c') :
    ∃ bs' y', a.StandsFor bs' ∧ GuardedRun.run UringCalls.step y bs' = some y' ∧ Mirrors c' y' := by
  have hnothing : bs = [] → GuardedRun.run UringCalls.step y [] = some y ∧ Mirrors c' y := by
    intro hbs
    subst hbs
    cases Option.some.inj hrun
    exact ⟨rfl, h⟩
  have hone : ∀ {b}, bs = [b] → c.step uringCode b = some c' := by
    intro b hbs
    subst hbs
    obtain ⟨c₁, hc₁, hend⟩ := Option.bind_eq_some_iff.mp hrun
    cases Option.some.inj hend
    exact hc₁
  cases a with
  | call i x =>
    obtain ⟨y', hy', hmirrors⟩ := h.call (hone hstands)
    exact ⟨_, y', rfl, run_singleton hy', hmirrors⟩
  | atomic i =>
    obtain ⟨n, y', hy', hmirrors⟩ := h.atomic (hone hstands)
    exact ⟨_, y', ⟨n, rfl⟩, run_singleton hy', hmirrors⟩
  | attempt i spurious =>
    rcases hstands with hbs | hbs
    · exact ⟨[], y, Or.inl rfl, hnothing hbs⟩
    · obtain ⟨n, y', hy', hmirrors⟩ := h.critical (hone hbs)
      exact ⟨_, y', Or.inr ⟨n, rfl⟩, run_singleton hy', hmirrors⟩
  | access i => exact ⟨[], y, rfl, hnothing hstands⟩
  | unlock i => exact ⟨[], y, rfl, hnothing hstands⟩

/-- Access by access the threads do what their calls do in at most one step. -/
theorem step_mirrors {a : ThreadAction ι UringCall}
    (h : x.Exclusive ∧ ∃ c, x.Settles c ∧ Mirrors c y) (hstep : x.step uringCode a = some x') :
    ∃ bs y', a.StandsFor bs ∧ GuardedRun.run UringCalls.step y bs = some y' ∧
      x'.Exclusive ∧ ∃ c, x'.Settles c ∧ Mirrors c y' := by
  obtain ⟨hex, c, hsettles, hmirrors⟩ := h
  obtain ⟨bs, c', hstands, hrun, hsettles'⟩ := hsettles.step hex hstep
  obtain ⟨bs', y', hstands', hrun', hmirrors'⟩ := hmirrors.run hstands hrun
  exact ⟨bs', y', hstands', hrun', hex.step hstep, c', hsettles', hmirrors'⟩

theorem rank_atomic {t : UringPlace} {f : UringAtomics → UringPlace × UringAtomics}
    (h : t.next = .atomic f) (g : UringAtomics) : (f g).1.rank < t.rank := by
  cases t with
  | entry call =>
    cases call with
    | handle request outcome =>
      cases h
      show 3 < 4
      omega
    | createQueue maxPending alloc =>
      cases h
      show 1 < 4
      omega
    | destroyQueue queueId => cases h
    | addUrl queueId url copied pushed => cases h
    | removeUrl url => cases h
    | recvRequest queueId bufLen left => cases h
    | sendResponse payload memory left alloc => cases h
  | enqueueing queueId reqId data outcome =>
    rw [UringPlace.next] at h
    split at h
    · cases h
    · cases h
      show 0 < 2
      omega
  | responding channel payload memory left alloc =>
    cases h
    cases respond payload memory left alloc with
    | error e => exact Nat.zero_lt_one
    | ok response => exact Nat.zero_lt_one
  | idle => cases h
  | returned r => cases h
  | routing request reqId outcome => cases h
  | buffering queueId reqId data channel outcome => cases h
  | creating id maxPending alloc => cases h
  | adding url queueId pushed => cases h

theorem rank_afterRoute (request : Request) (reqId : UInt64) (outcome : HandleOutcome)
    (found : Option UInt32) : (afterRoute request reqId outcome found).rank < 3 := by
  cases found with
  | none => exact Nat.zero_lt_succ 2
  | some queueId =>
    rw [afterRoute]
    split
    · exact Nat.lt_succ_self 2
    · exact Nat.zero_lt_succ 2

theorem rank_lock {t : UringPlace} {k : UringLock} {body : Section k.Data UringPlace}
    (h : t.next = .lock k body) (d : k.Data) : (body.run d).1.rank < t.rank := by
  cases t with
  | entry call =>
    cases call with
    | handle request outcome => cases h
    | createQueue maxPending alloc => cases h
    | destroyQueue queueId =>
      cases h
      rw [Section.run_map]
      exact Nat.zero_lt_succ 3
    | addUrl queueId url copied pushed =>
      cases h
      rw [Section.run_map, afterCheck]
      split
      · exact Nat.zero_lt_succ 3
      · split
        · exact Nat.zero_lt_succ 3
        · show 1 < 4
          omega
    | removeUrl url =>
      cases h
      rw [Section.run_map]
      exact Nat.zero_lt_succ 3
    | recvRequest queueId bufLen left =>
      cases h
      rw [Section.run_map]
      exact Nat.zero_lt_succ 3
    | sendResponse payload memory left alloc =>
      cases h
      rw [Section.run_map]
      cases (Section.run (takeSection payload.reqId) d).1 with
      | none => exact Nat.zero_lt_succ 3
      | some channel =>
        show 1 < 4
        omega
  | routing request reqId outcome =>
    cases h
    rw [Section.run_map]
    exact rank_afterRoute ..
  | enqueueing queueId reqId data outcome =>
    rw [UringPlace.next] at h
    split at h
    · cases h
      rw [Section.run_map]
      exact Nat.lt_succ_self 1
    · cases h
  | buffering queueId reqId data channel outcome =>
    cases h
    rw [Section.run_map]
    exact Nat.zero_lt_one
  | creating id maxPending alloc =>
    cases h
    rw [Section.run_map]
    exact Nat.zero_lt_one
  | adding url queueId pushed =>
    cases h
    rw [Section.run_map]
    exact Nat.zero_lt_one
  | responding channel payload memory left alloc => cases h
  | idle => cases h
  | returned r => cases h

/-- Every call under way can still come to its end. -/
theorem call_returns (hex : x.Exclusive) (i : ι) :
    ∃ as x' t, GuardedRun.run (Threads.step uringCode) x as = some x' ∧ x'.phase i = .outside t ∧
      (t = .idle ∨ ∃ r, t = .returned r) := by
  obtain ⟨as, x', t, hrun, hphase, hnext⟩ : ∃ as x' t,
      GuardedRun.run (Threads.step uringCode) x as = some x' ∧ x'.phase i = .outside t ∧
        uringCode.next t = .finished :=
    Threads.comes_to_rest UringPlace.rank rank_atomic rank_lock hex i
  exact ⟨as, x', t, hrun, hphase, next_eq_finished hnext⟩

omit [DecidableEq ι] in
theorem mirrors_new : Mirrors ⟨uringData, ⟨1, 1, []⟩, fun _ => .idle⟩ (UringCalls.new ι) :=
  ⟨fun _ => rfl, [], [], ⟨.nil, fun i t => by simp [UringCalls.new, CallStage.task]⟩, rfl⟩

/-- Any number of threads that work on the handler access by access under its spin locks, in any
order, make the calls of a run of the atomic system, in the same order, and get the same results from
them. Each step of a thread stands for at most one step of its own call, never two threads are in a
section of one lock, and whatever the threads have done, each call can still be brought to its end. -/
theorem threads_refine_atomic {as : List (ThreadAction ι UringCall)}
    (hrun : GuardedRun.run (Threads.step uringCode) (uringNew ι) as = some x) :
    x.Exclusive ∧
    (∃ bss y, List.Forall₂ ThreadAction.StandsFor as bss ∧
      GuardedRun.run UringCalls.step (.new ι) bss.flatten = some y ∧
      (∃ actions, GuardedRun.run UringState.step .new actions = some y.state) ∧ Observes x y) ∧
    ∀ i, ∃ more x' t, GuardedRun.run (Threads.step uringCode) x more = some x' ∧
      x'.phase i = .outside t ∧ (t = .idle ∨ ∃ r, t = .returned r) := by
  obtain ⟨bss, y, hall, hy, hex, c, hsettles, hmirrors⟩ := GuardedRun.run_refines
    (R := fun x y => x.Exclusive ∧ ∃ c, x.Settles c ∧ Mirrors c y) step_mirrors
    ⟨Threads.exclusive_new .., _, Threads.settles_new .., mirrors_new⟩ hrun
  exact ⟨hex, ⟨bss, y, hall, hy, UringCalls.state_of_run hy, observes hsettles hmirrors⟩,
    call_returns hex⟩

/-- One thread creates a queue while another one asks for a request of it and spins on the lock. -/
def createThenReceive : List (ThreadAction Bool UringCall) :=
  [.call false (.createQueue 0 true), .atomic false, .call true (.recvRequest 1 64 0),
    .attempt false true, .attempt false false, .attempt true false, .access false, .unlock false,
    .attempt true false, .access true, .access true, .access true]

theorem threads_refine_receive :
    ∃ x, GuardedRun.run (Threads.step uringCode) (uringNew Bool) createThenReceive = some x ∧
      (x.mutex .queues).locked = true ∧ (x.mutex .queues).data = [(1, ⟨1, 256, []⟩)] ∧
      x.Exclusive ∧
      (∃ bss y, List.Forall₂ ThreadAction.StandsFor createThenReceive bss ∧
        GuardedRun.run UringCalls.step (.new Bool) bss.flatten = some y ∧
        (∃ actions, GuardedRun.run UringState.step .new actions = some y.state) ∧ Observes x y) ∧
      ∀ i, ∃ more x' t, GuardedRun.run (Threads.step uringCode) x more = some x' ∧
        x'.phase i = .outside t ∧ (t = .idle ∨ ∃ r, t = .returned r) :=
  ⟨_, rfl, rfl, rfl, threads_refine_atomic rfl⟩

end Refinement

end Rko
