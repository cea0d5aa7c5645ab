import Mathlib.Data.List.Forall2
import Rko.UringResponses

namespace Rko

open GuardedRun CallPool

/-- What happened to a queue since it was created: the requests pushed to its buffer, and those that
a RECV_REQUEST took out. -/
structure QueueLog where
  id : UInt32
  accepted : List BufferedRequest
  taken : List BufferedRequest
deriving DecidableEq, Repr

/-- The channels of the requests that a log has as accepted. -/
def QueueLog.origins (log : QueueLog) : List Channel := log.accepted.map BufferedRequest.origin

/-- The logs of the queues of a handler, in their order, and of those destroyed. -/
structure QueueHistory where
  live : List QueueLog
  closed : List QueueLog
deriving DecidableEq, Repr

/-- Change the log of the queue that `find` finds. -/
def updateLog (queueId : UInt32) (f : QueueLog → QueueLog) : List QueueLog → List QueueLog
  | [] => []
  | log :: logs => if log.id = queueId then f log :: logs else log :: updateLog queueId f logs

def RequestQueue.hasRoom (q : RequestQueue) : Bool := q.buffered.length.toUInt32 < q.maxPending

namespace QueueHistory

def new : QueueHistory := ⟨[], []⟩

def accept (e : QueueHistory) (queueId : UInt32) (b : BufferedRequest) : QueueHistory :=
  { e with live := updateLog queueId (fun log => { log with accepted := log.accepted ++ [b] }) e.live }

def take (e : QueueHistory) (queueId : UInt32) (b : BufferedRequest) : QueueHistory :=
  { e with live := updateLog queueId (fun log => { log with taken := log.taken ++ [b] }) e.live }

def create (e : QueueHistory) (id : UInt32) : QueueHistory :=
  { e with live := e.live ++ [⟨id, [], []⟩] }

def destroy (e : QueueHistory) (queueId : UInt32) : QueueHistory :=
  ⟨e.live.eraseP fun log => log.id = queueId,
    e.closed ++ (e.live.find? fun log => log.id = queueId).toList⟩

/-- A push is logged if the queue exists, has room and the allocation succeeds. -/
def noteBuffer (e : QueueHistory) (queues : Queues) (queueId : UInt32) (b : BufferedRequest)
    (alloc : Bool) : QueueHistory :=
  match queues.find queueId with
  | none => e
  | some q => if q.hasRoom && alloc then e.accept queueId b else e

def note (s : UringState) (a : UringAction) (_ : UringState) (e : QueueHistory) : QueueHistory :=
  match a with
  | .buffer i alloc =>
    match s.tasks[i]? with
    | some (.buffering queueId reqId data channel) =>
      e.noteBuffer s.queues queueId ⟨reqId, data, channel⟩ alloc
    | _ => e
  | .recvRequest queueId bufLen left =>
    match (cmdRecvRequest s.queues queueId bufLen left).2.2 with
    | some b => e.take queueId b
    | none => e
  | .pushQueue i alloc =>
    match s.tasks[i]? with
    | some (.creating id _) => if alloc then e.create id else e
    | _ => e
  | .destroyQueue queueId => e.destroy queueId
  | _ => e

/-- The requests that were ever accepted, by the channels made for them. -/
def accepted (e : QueueHistory) : List Channel :=
  (e.live ++ e.closed).flatMap QueueLog.origins

end QueueHistory

/-- The buffer holds what was accepted and not yet taken, in this order, and is within its limit. -/
structure Buffers (q : UInt32 × RequestQueue) (log : QueueLog) : Prop where
  id : log.id = q.1
  order : log.accepted = log.taken ++ q.2.buffered
  bound : q.2.buffered.length ≤ q.2.maxPending.toNat

/-- The length is compared as a `u32`, which the limit keeps exact. -/
theorem Buffers.accept {queueId : UInt32} {q : RequestQueue} {log : QueueLog} {b : BufferedRequest}
    (h : Buffers (queueId, q) log) (hroom : q.hasRoom = true) :
    Buffers (queueId, { q with buffered := q.buffered ++ [b] })
      { log with accepted := log.accepted ++ [b] } := by
  have hbound : q.buffered.length ≤ q.maxPending.toNat := h.bound
  have hlt : q.buffered.length.toUInt32.toNat < q.maxPending.toNat :=
    UInt32.lt_iff_toNat_lt.mp (of_decide_eq_true hroom)
  have hsmall : q.maxPending.toNat < 2 ^ 32 := q.maxPending.toNat_lt
  rw [Nat.toUInt32_eq, UInt32.toNat_ofNat', Nat.mod_eq_of_lt (by omega)] at hlt
  refine ⟨h.id, ?_, ?_⟩
  · show log.accepted ++ [b] = log.taken ++ (q.buffered ++ [b])
    rw [h.order, List.append_assoc]
  · show (q.buffered ++ [b]).length ≤ q.maxPending.toNat
    rw [List.length_append, List.length_singleton]
    exact hlt

section Recv

variable {queues : Queues} {queueId : UInt32} {q : RequestQueue}

theorem cmdRecvRequest_unknown (hfind : queues.find queueId = none) (bufLen : UInt32) (left : Nat) :
    cmdRecvRequest queues queueId bufLen left = (Error.ENOENT.toErrno, queues, none) := by
  rw [cmdRecvRequest, hfind]

theorem cmdRecvRequest_empty (hfind : queues.find queueId = some q) (hbuffered : q.buffered = [])
    (bufLen : UInt32) (left : Nat) :
    cmdRecvRequest queues queueId bufLen left = (Error.EAGAIN.toErrno, queues, none) := by
  simp only [cmdRecvRequest, hfind, hbuffered]

theorem cmdRecvRequest_first {b : BufferedRequest} {rest : List BufferedRequest}
    (hfind : queues.find queueId = some q) (hbuffered : q.buffered = b :: rest) (bufLen : UInt32)
    (left : Nat) :
    (cmdRecvRequest queues queueId bufLen left).2 =
      (queues.update queueId fun q => { q with buffered := rest }, some b) := by
  simp only [cmdRecvRequest, hfind, hbuffered]

end Recv

section Logs

variable {queues : Queues} {logs : List QueueLog} {queueId : UInt32}
  {f : RequestQueue → RequestQueue} {g : QueueLog → QueueLog}

theorem buffers_update (h : List.Forall₂ Buffers queues logs)
    (hfound : ∀ q log, queues.find queueId = some q → Buffers (queueId, q) log →
      Buffers (queueId, f q) (g log)) :
    List.Forall₂ Buffers (queues.update queueId f) (updateLog queueId g logs) := by
  induction h with
  | nil => exact .nil
  | @cons x log queues logs hx hrest ih =>
    obtain ⟨id, q⟩ := x
    have hid : log.id = id := hx.id
    rw [Queues.update, updateLog, hid]
    by_cases heq : id = queueId
    · subst heq
      rw [if_pos rfl, if_pos rfl]
      exact .cons (hfound q log (by rw [Queues.find_cons, if_pos rfl]) hx) hrest
    · rw [if_neg heq, if_neg heq]
      refine .cons hx (ih fun q' log' hq' => hfound q' log' ?_)
      rw [Queues.find_cons, if_neg heq]
      exact hq'

theorem update_eq_self (h : ∀ q, queues.find queueId = some q → f q = q) :
    queues.update queueId f = queues := by
  induction queues with
  | nil => rfl
  | cons x queues ih =>
    obtain ⟨id, q⟩ := x
    rw [Queues.update]
    by_cases heq : id = queueId
    · rw [if_pos heq, h q (by rw [Queues.find_cons, if_pos heq])]
    · rw [if_neg heq, ih fun q' hq' => h q' (by rw [Queues.find_cons, if_neg heq]; exact hq')]

theorem buffers_eraseP (h : List.Forall₂ Buffers queues logs) (queueId : UInt32) :
    List.Forall₂ Buffers (queues.eraseP fun q => q.1 = queueId)
      (logs.eraseP fun log => log.id = queueId) := by
  induction h with
  | nil => exact .nil
  | @cons x log queues logs hx hrest ih =>
    have hid := hx.id
    by_cases heq : x.1 = queueId
    · rw [List.eraseP_cons_of_pos (by simpa using heq),
        List.eraseP_cons_of_pos (by simpa using hid.trans heq)]
      exact hrest
    · rw [List.eraseP_cons_of_neg (by simpa using heq),
        List.eraseP_cons_of_neg (by simpa [hid] using heq)]
      exact .cons hx ih

theorem taken_of_mem (h : List.Forall₂ Buffers queues logs) {log : QueueLog} (hlog : log ∈ logs) :
    log.taken <+: log.accepted := by
  induction h with
  | nil => cases hlog
  | cons hx hrest ih =>
    rcases List.mem_cons.mp hlog with rfl | hmem
    · rw [hx.order]
      exact List.prefix_append _ _
    · exact ih hmem

theorem origins_updateLog (hg : ∀ log, (g log).origins = log.origins) :
    (updateLog queueId g logs).flatMap QueueLog.origins = logs.flatMap QueueLog.origins := by
  induction logs with
  | nil => rfl
  | cons log logs ih =>
    rw [updateLog, List.flatMap_cons]
    split
    · rw [List.flatMap_cons, hg]
    · rw [List.flatMap_cons, ih]

theorem origins_updateLog_concat {c : Channel} (hg : ∀ log, (g log).origins = log.origins ++ [c]) :
    ((updateLog queueId g logs).flatMap QueueLog.origins).Subperm
      (c :: logs.flatMap QueueLog.origins) := by
  induction logs with
  | nil => exact List.nil_subperm
  | cons log logs ih =>
    rw [updateLog, List.flatMap_cons]
    split
    · rw [List.flatMap_cons, hg, List.append_assoc]
      exact List.perm_middle.subperm
    · rw [List.flatMap_cons]
      exact ((List.subperm_append_left _).mpr ih).trans List.perm_middle.subperm

/-- Destroying a queue keeps its log. -/
theorem find_eraseP_perm (p : QueueLog → Bool) (logs : List QueueLog) :
    (logs.eraseP p ++ (logs.find? p).toList).Perm logs := by
  induction logs with
  | nil => exact .nil
  | cons log logs ih =>
    by_cases hp : p log = true
    · rw [List.eraseP_cons_of_pos hp, List.find?_cons_of_pos hp]
      exact List.perm_append_singleton log logs
    · rw [List.eraseP_cons_of_neg hp, List.find?_cons_of_neg hp]
      exact ih.cons log

end Logs

theorem QueueHistory.accepted_take (e : QueueHistory) (queueId : UInt32) (b : BufferedRequest) :
    (e.take queueId b).accepted = e.accepted := by
  have hlive : (e.take queueId b).live.flatMap QueueLog.origins = e.live.flatMap QueueLog.origins :=
    origins_updateLog fun _ => rfl
  rw [accepted, accepted, List.flatMap_append, List.flatMap_append, hlive]
  rfl

theorem QueueHistory.accepted_accept (e : QueueHistory) (queueId : UInt32) (b : BufferedRequest) :
    (e.accept queueId b).accepted.Subperm (b.origin :: e.accepted) := by
  have hlive : ((e.accept queueId b).live.flatMap QueueLog.origins).Subperm
      (b.origin :: e.live.flatMap QueueLog.origins) :=
    origins_updateLog_concat fun _ => List.map_append
  rw [accepted, accepted, List.flatMap_append, List.flatMap_append]
  exact hlive.append (List.Subperm.refl _)

/-- The channels of the requests that an `enqueue_serialized` has yet to push. -/
def UringState.inHand (s : UringState) : List Channel := s.carried.map Prod.snd

/-- The logs tell the run so far; a request is in one of them at most, or still in the hands of its
`enqueue_serialized`. -/
structure InOrder (s : UringState) (e : QueueHistory) : Prop where
  buffers : List.Forall₂ Buffers s.queues e.live
  closed : ∀ log ∈ e.closed, log.taken <+: log.accepted
  once : (e.accepted ++ s.inHand).Nodup
  opened : ∀ c ∈ e.accepted ++ s.inHand, c < s.nextChannel

section Hands

open UringState

variable {s : UringState} {i : Nat} {t t' : UringTask}

theorem inHand_start (ht : t.carried = none) : (s.start t).inHand = s.inHand := by
  rw [inHand, carried_start, ht, Option.toList_none, List.append_nil, inHand]

theorem inHand_finish (s : UringState) (i : Nat) : (s.finish i).inHand.Subperm s.inHand :=
  (((List.eraseIdx_sublist _ _).filterMap _).map _).subperm

theorem inHand_advance (ht : s.tasks[i]? = some t) (ht' : t'.carried = none) :
    (s.advance i t').inHand.Subperm s.inHand := by
  obtain ⟨l, hperm, hsub⟩ := filterMap_set_subperm UringTask.carried ht ht'
  exact ⟨l.map Prod.snd, hperm.map Prod.snd, hsub.map Prod.snd⟩

theorem inHand_route {request : Request} {reqId : UInt64}
    (ht : s.tasks[i]? = some (.routing request reqId)) (alloc : Bool) :
    (s.stepRoute i request reqId alloc).inHand.Subperm s.inHand :=
  stepRoute_cases request reqId alloc (inHand_finish s i) fun _ => inHand_advance ht rfl

end Hands

namespace InOrder

open UringState QueueHistory

variable {s s' : UringState} {e e' : QueueHistory} {i : Nat} {queueId : UInt32} {reqId : UInt64}
  {data : Bytes}

theorem new : InOrder UringState.new QueueHistory.new :=
  ⟨.nil, nofun, List.nodup_nil, nofun⟩

/-- A step that makes no request. -/
theorem of_subperm (h : InOrder s e) (hbuffers : List.Forall₂ Buffers s'.queues e'.live)
    (hclosed : ∀ log ∈ e'.closed, log.taken <+: log.accepted)
    (hnext : s'.nextChannel = s.nextChannel)
    (hsub : (e'.accepted ++ s'.inHand).Subperm (e.accepted ++ s.inHand)) : InOrder s' e' := by
  refine ⟨hbuffers, hclosed, nodup_of_subperm hsub h.once, fun c hc => ?_⟩
  rw [hnext]
  exact h.opened c (hsub.subset hc)

/-- A step that leaves the queues alone. -/
theorem frame (h : InOrder s e) (hqueues : s'.queues = s.queues)
    (hnext : s'.nextChannel = s.nextChannel) (hhand : s'.inHand.Subperm s.inHand) : InOrder s' e :=
  h.of_subperm (hqueues ▸ h.buffers) h.closed hnext ((List.subperm_append_left _).mpr hhand)

theorem storePending (h : InOrder s e) (ht : s.tasks[i]? = some (.enqueueing queueId reqId data))
    (channel alloc : Bool) : InOrder (s.stepStore i queueId reqId data channel alloc) e := by
  cases channel with
  | false => exact h.frame rfl rfl (inHand_finish s i)
  | true =>
    have hhand : (s.stepStore i queueId reqId data true alloc).inHand.Perm
        (s.nextChannel :: s.inHand) :=
      (filterMap_set UringTask.carried ht (.buffering queueId reqId data s.nextChannel)).map Prod.snd
    have hperm : (e.accepted ++ (s.stepStore i queueId reqId data true alloc).inHand).Perm
        (s.nextChannel :: (e.accepted ++ s.inHand)) :=
      (hhand.append_left _).trans List.perm_middle
    refine ⟨h.buffers, h.closed, hperm.nodup_iff.mpr (List.nodup_cons.mpr ⟨fun hmem => ?_, h.once⟩),
      fun c hc => ?_⟩
    · exact (h.opened _ hmem).false
    · show c < s.nextChannel + 1
      rcases List.mem_cons.mp (hperm.subset hc) with rfl | hc
      · exact Nat.lt_succ_self _
      · exact (h.opened c hc).trans (Nat.lt_succ_self _)

theorem pushQueue (h : InOrder s e) (id maxPending : UInt32) (alloc : Bool) :
    InOrder { s.finish i with queues := (Rko.pushQueue s.queues id maxPending alloc).2 }
      (if alloc then e.create id else e) := by
  cases alloc with
  | false => exact h.frame rfl rfl (inHand_finish s i)
  | true =>
    have haccepted : (e.create id).accepted = e.accepted := by
      simp [QueueHistory.accepted, create, QueueLog.origins]
    refine h.of_subperm ?_ h.closed rfl ?_
    · exact List.rel_append h.buffers (.cons ⟨rfl, rfl, Nat.zero_le _⟩ .nil)
    · rw [if_pos rfl, haccepted]
      exact (List.subperm_append_left _).mpr (inHand_finish s i)

theorem destroyQueue (h : InOrder s e) (queueId : UInt32) :
    InOrder { s with queues := (cmdDestroyQueue s.queues queueId).2 } (e.destroy queueId) := by
  refine h.of_subperm ?_ (fun log hlog => ?_) rfl ?_
  · show List.Forall₂ Buffers (cmdDestroyQueue s.queues queueId).2 _
    rw [cmdDestroyQueue_eq]
    exact buffers_eraseP h.buffers queueId
  · rcases List.mem_append.mp hlog with hlog | hlog
    · exact h.closed log hlog
    · exact taken_of_mem h.buffers (List.mem_of_find?_eq_some (Option.mem_toList.mp hlog))
  · have hlogs : ((e.destroy queueId).live ++ (e.destroy queueId).closed).Perm
        (e.live ++ e.closed) := by
      have hperm := find_eraseP_perm (fun log => log.id = queueId) e.live
      refine List.Perm.trans ?_ (hperm.append_right e.closed)
      rw [List.append_assoc]
      exact List.perm_append_comm.append_left _
    exact ((hlogs.flatMap_right _).append_right _).subperm

theorem recvRequest (h : InOrder s e) (queueId bufLen : UInt32) (left : Nat) :
    InOrder (s.stepRecv queueId bufLen left)
      (note s (.recvRequest queueId bufLen left) (s.stepRecv queueId bufLen left) e) := by
  have hhand : (s.stepRecv queueId bufLen left).inHand = s.inHand := by
    obtain ⟨delivered, hrecv⟩ := s.stepRecv_eq queueId bufLen left
    rw [hrecv]
    rfl
  have hnext := (Frame.recv s queueId bufLen left).nextChannel
  have hqueues := stepRecv_queues s queueId bufLen left
  rw [note]
  cases hfind : s.queues.find queueId with
  | none =>
    rw [cmdRecvRequest_unknown hfind] at hqueues ⊢
    exact h.frame hqueues hnext (List.Perm.of_eq hhand).subperm
  | some q =>
    cases hbuffered : q.buffered with
    | nil =>
      rw [cmdRecvRequest_empty hfind hbuffered] at hqueues ⊢
      exact h.frame hqueues hnext (List.Perm.of_eq hhand).subperm
    | cons b rest =>
      rw [cmdRecvRequest_first hfind hbuffered] at hqueues ⊢
      refine h.of_subperm ?_ h.closed hnext (List.Perm.of_eq ?_).subperm
      · rw [hqueues]
        refine buffers_update h.buffers fun q' log hq' hlog => ⟨hlog.id, ?_, ?_⟩
        · cases hfind.symm.trans hq'
          show log.accepted = log.taken ++ [b] ++ rest
          rw [hlog.order, hbuffered, List.append_assoc, List.singleton_append]
        · cases hfind.symm.trans hq'
          have hbound : q.buffered.length ≤ q.maxPending.toNat := hlog.bound
          rw [hbuffered, List.length_cons] at hbound
          exact (Nat.le_succ _).trans hbound
      · show (e.take queueId b).accepted ++ _ = _
        rw [hhand, accepted_take]

theorem buffer (h : InOrder s e) {channel : Channel}
    (ht : s.tasks[i]? = some (.buffering queueId reqId data channel)) (alloc : Bool) :
    InOrder { s.finish i with queues := pushBuffered s.queues queueId ⟨reqId, data, channel⟩ alloc }
      (e.noteBuffer s.queues queueId ⟨reqId, data, channel⟩ alloc) := by
  have hhand : (channel :: (s.finish i).inHand).Perm s.inHand :=
    (filterMap_eraseIdx UringTask.carried ht).map Prod.snd
  have hrefused : pushBuffered s.queues queueId ⟨reqId, data, channel⟩ alloc = s.queues →
      InOrder { s.finish i with queues := pushBuffered s.queues queueId ⟨reqId, data, channel⟩ alloc }
        e := fun heq => h.frame heq rfl (inHand_finish s i)
  rw [noteBuffer]
  cases hfind : s.queues.find queueId with
  | none =>
    refine hrefused (update_eq_self fun q hq => ?_)
    rw [hfind] at hq
    cases hq
  | some q =>
    dsimp only
    split
    next hroom =>
      obtain ⟨hfree, rfl⟩ := Bool.and_eq_true_iff.mp hroom
      refine h.of_subperm ?_ h.closed rfl ?_
      · refine buffers_update h.buffers fun q' log hq' hlog => ?_
        cases hfind.symm.trans hq'
        rw [if_pos ⟨of_decide_eq_true hfree, rfl⟩]
        exact hlog.accept hfree
      · refine ((accepted_accept e queueId _).append (List.Subperm.refl _)).trans ?_
        exact (List.perm_middle.symm.trans (hhand.append_left _)).subperm
    next hroom =>
      refine hrefused (update_eq_self fun q' hq' => if_neg fun hcond => hroom ?_)
      cases hfind.symm.trans hq'
      exact Bool.and_eq_true_iff.mpr ⟨decide_eq_true hcond.1, hcond.2⟩

theorem step (h : InOrder s e) {a : UringAction} (hstep : s.step a = some s') :
    InOrder s' (note s a s' e) := by
  cases transition_of_step hstep with
  | arrive request => exact h.frame rfl rfl (List.Perm.of_eq (inHand_start rfl)).subperm
  | route alloc htask =>
    exact h.frame (by simp) (Frame.route htask alloc).nextChannel (inHand_route htask alloc)
  | storePending channel alloc htask => exact h.storePending htask channel alloc
  | buffer alloc htask =>
    simp only [note, htask]
    exact h.buffer htask alloc
  | createQueue maxPending => exact h.frame rfl rfl (List.Perm.of_eq (inHand_start rfl)).subperm
  | pushQueue alloc htask =>
    simp only [note, htask]
    exact h.pushQueue _ _ alloc
  | destroyQueue queueId => exact h.destroyQueue queueId
  | addUrl url hqueue => exact h.frame rfl rfl (List.Perm.of_eq (inHand_start rfl)).subperm
  | refuseUrl queueId url alloc => exact h
  | insertUrl alloc htask => exact h.frame rfl rfl (inHand_finish s _)
  | removeUrl url => exact h.frame rfl rfl (List.Subperm.refl _)
  | recvRequest queueId bufLen left => exact h.recvRequest queueId bufLen left
  | sendUnknown hnone => exact h
  | sendResponse htake => exact h.frame rfl rfl (List.Perm.of_eq (inHand_start rfl)).subperm
  | respond memory left alloc htask =>
    exact stepRespond_cases _ _ fun _ => h.frame rfl rfl (inHand_finish s _)

end InOrder

/-- Whatever the calls on the handler do to each other, RECV_REQUEST takes the requests of a queue
in the order in which they were accepted, each once, and no buffer grows beyond `max_pending`. -/
theorem requests_in_order {as : List UringAction} {s : UringState}
    (hrun : run UringState.step UringState.new as = some s) :
    ∃ e, run (recorded UringState.step QueueHistory.note) (UringState.new, QueueHistory.new) as =
        some (s, e) ∧
      (∀ log ∈ e.live ++ e.closed, log.taken <+: log.accepted ∧ log.taken.Nodup) ∧
      ((e.live ++ e.closed).flatMap QueueLog.origins).Nodup ∧
      List.Forall₂ (fun q log => log.id = q.1 ∧ log.accepted = log.taken ++ q.2.buffered ∧
        q.2.buffered.length ≤ q.2.maxPending.toNat) s.queues e.live := by
  have hguard : Guarded UringState.step (fun _ _ => True) UringState.new as :=
    guarded_of_forall (fun _ _ => trivial) _
  obtain ⟨e, hrecorded, h⟩ : ∃ e, run (recorded UringState.step QueueHistory.note)
      (UringState.new, QueueHistory.new) as = some (s, e) ∧ InOrder s e :=
    recorded_invariant (fun h _ hstep => h.step hstep) InOrder.new hguard hrun
  have honce : e.accepted.Nodup := h.once.sublist (List.sublist_append_left _ _)
  refine ⟨e, hrecorded, fun log hlog => ?_, honce, h.buffers.imp fun q log hlog => ?_⟩
  · have htaken : log.taken <+: log.accepted := by
      rcases List.mem_append.mp hlog with hlog | hlog
      · exact taken_of_mem h.buffers hlog
      · exact h.closed log hlog
    have horigins : log.origins.Nodup := (List.nodup_flatMap.mp honce).1 log hlog
    exact ⟨htaken, (List.Nodup.of_map _ horigins).sublist htaken.sublist⟩
  · exact ⟨hlog.id, hlog.order, hlog.bound⟩

/-- Two requests for a queue of two, of which the later one is buffered first, and a third that
finds no room. -/
def threeArrivals : List UringAction :=
  [.createQueue 2, .pushQueue 0 true, .addUrl 1 (ascii "/") true, .insertUrl 0 true,
    .arrive ⟨.get, ascii "/a", .http11, [], []⟩, .arrive ⟨.get, ascii "/b", .http11, [], []⟩,
    .arrive ⟨.get, ascii "/c", .http11, [], []⟩, .route 0 true, .route 1 true, .route 2 true,
    .storePending 0 true true, .storePending 1 true true, .storePending 2 true true,
    .buffer 1 true, .buffer 0 true, .buffer 0 true, .recvRequest 1 4096 0]

theorem requests_in_order_three :
    ∃ s e, run UringState.step UringState.new threeArrivals = some s ∧
      run (recorded UringState.step QueueHistory.note) (UringState.new, QueueHistory.new)
        threeArrivals = some (s, e) ∧
      (e.live.map fun log => (log.origins, log.taken.map BufferedRequest.origin)) = [([1, 0], [1])] ∧
      ∀ log ∈ e.live ++ e.closed, log.taken <+: log.accepted ∧ log.taken.Nodup := by
  obtain ⟨s, hrun⟩ : ∃ s, run UringState.step UringState.new threeArrivals = some s := ⟨_, rfl⟩
  obtain ⟨e, hrecorded, hlogs, -, -⟩ := requests_in_order hrun
  have horigins : ((run (recorded UringState.step QueueHistory.note)
      (UringState.new, QueueHistory.new) threeArrivals).map fun x => x.2.live.map fun log =>
        (log.origins, log.taken.map BufferedRequest.origin)) = some [([1, 0], [1])] := by
    decide
  rw [hrecorded] at horigins
  exact ⟨s, e, hrun, hrecorded, Option.some.inj horigins, hlogs⟩

end Rko
