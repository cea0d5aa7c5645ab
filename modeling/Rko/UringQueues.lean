import Rko.UringRoutes

namespace Rko

open GuardedRun RankedList

def Queues.ids (queues : Queues) : List UInt32 := queues.map Prod.fst

theorem Queues.ids_update (queueId : UInt32) (f : RequestQueue → RequestQueue) (queues : Queues) :
    (Queues.update queueId f queues).ids = queues.ids := by
  induction queues with
  | nil => rfl
  | cons q queues ih =>
    rw [Queues.update]
    split
    · rfl
    · exact congrArg (q.1 :: ·) ih

theorem cmdDestroyQueue_eq (queues : Queues) (queueId : UInt32) :
    (cmdDestroyQueue queues queueId).2 = queues.eraseP fun q => q.1 = queueId := by
  rw [List.eraseP_eq_eraseIdx, cmdDestroyQueue]
  cases queues.findIdx? fun q => q.1 = queueId <;> rfl

theorem ids_cmdDestroyQueue (queues : Queues) (queueId : UInt32) :
    (cmdDestroyQueue queues queueId).2.ids = queues.ids.erase queueId := by
  rw [cmdDestroyQueue_eq, Queues.ids, Queues.ids, List.erase_eq_eraseP', List.eraseP_map]
  congr 2

theorem ids_cmdRecvRequest (queues : Queues) (queueId bufLen : UInt32) (left : Nat) :
    (cmdRecvRequest queues queueId bufLen left).2.1.ids = queues.ids := by
  unfold cmdRecvRequest
  split
  · rfl
  · split
    · rfl
    · exact Queues.ids_update queueId _ queues

theorem mem_insertUrl {routes : Routes} (hranked : Ranked urlLength routes) {url : Bytes}
    {queueId : UInt32} {alloc : Bool} {r : Bytes × UInt32}
    (hr : r ∈ (insertUrl routes url queueId alloc).2) :
    r ∈ routes ∨ r = (url, queueId) ∧ (routes.any fun r => r.1 = url) = false ∧ alloc = true := by
  unfold insertUrl at hr
  split at hr
  next => exact Or.inl hr
  next hany =>
    split at hr
    next halloc =>
      rw [sortRoutes_push hranked, (place_perm _ routes).mem_iff] at hr
      rcases List.mem_cons.mp hr with rfl | hr
      · exact Or.inr ⟨rfl, Bool.eq_false_of_not_eq_true hany, halloc⟩
      · exact Or.inl hr
    next => exact Or.inl hr

namespace UringState

/-- Every route names a queue that exists. -/
def RoutesLive (s : UringState) : Prop := ∀ r ∈ s.routes, r.2 ∈ s.queues.ids

instance (s : UringState) : Decidable s.RoutesLive :=
  inferInstanceAs (Decidable (∀ r ∈ s.routes, r.2 ∈ s.queues.ids))

/-- No queue is destroyed while a route names it, and the queue of a route still exists when the
route is stored. -/
def keepsRoutes (s : UringState) : UringAction → Bool
  | .destroyQueue queueId =>
    (s.routes.all fun r => r.2 != queueId) || decide (2 ≤ s.queues.ids.count queueId)
  | .insertUrl i alloc =>
    match s.tasks[i]? with
    | some (.adding url queueId) =>
      (s.queues.any fun q => q.1 = queueId) || (s.routes.any fun r => r.1 = url) || !alloc
    | _ => true
  | _ => true

section Frames

variable (s : UringState) (i : Nat)

@[simp] theorem stepRoute_routes (request : Request) (reqId : UInt64) (alloc : Bool) :
    (s.stepRoute i request reqId alloc).routes = s.routes :=
  stepRoute_cases request reqId alloc rfl fun _ => rfl

@[simp] theorem stepRoute_queues (request : Request) (reqId : UInt64) (alloc : Bool) :
    (s.stepRoute i request reqId alloc).queues = s.queues :=
  stepRoute_cases request reqId alloc rfl fun _ => rfl

@[simp] theorem stepStore_routes (queueId : UInt32) (reqId : UInt64) (data : Bytes)
    (channel alloc : Bool) : (s.stepStore i queueId reqId data channel alloc).routes = s.routes :=
  stepStore_cases queueId reqId data channel alloc rfl fun _ => rfl

@[simp] theorem stepStore_queues (queueId : UInt32) (reqId : UInt64) (data : Bytes)
    (channel alloc : Bool) : (s.stepStore i queueId reqId data channel alloc).queues = s.queues :=
  stepStore_cases queueId reqId data channel alloc rfl fun _ => rfl

@[simp] theorem stepRespond_routes (channel : Channel) (reply : Except Error Response) :
    (s.stepRespond i channel reply).routes = s.routes :=
  stepRespond_cases channel reply fun _ => rfl

@[simp] theorem stepRespond_queues (channel : Channel) (reply : Except Error Response) :
    (s.stepRespond i channel reply).queues = s.queues :=
  stepRespond_cases channel reply fun _ => rfl

@[simp] theorem stepRecv_routes (queueId bufLen : UInt32) (left : Nat) :
    (s.stepRecv queueId bufLen left).routes = s.routes := by
  obtain ⟨delivered, hrecv⟩ := s.stepRecv_eq queueId bufLen left
  rw [hrecv]

@[simp] theorem stepRecv_queues (queueId bufLen : UInt32) (left : Nat) :
    (s.stepRecv queueId bufLen left).queues =
      (cmdRecvRequest s.queues queueId bufLen left).2.1 := by
  obtain ⟨delivered, hrecv⟩ := s.stepRecv_eq queueId bufLen left
  rw [hrecv]

end Frames

/-- The table stands for some registrations, and their queues exist. -/
structure Served (s : UringState) : Prop where
  represents : ∃ registered, Represents s.routes registered
  live : s.RoutesLive

section Steps

variable {s s' : UringState} {a : UringAction}

theorem Served.new : Served UringState.new :=
  ⟨⟨_, routeTable_represents []⟩, nofun⟩

theorem Served.of_ids (hs : s.Served) (hroutes : s'.routes = s.routes)
    (hids : ∀ id ∈ s.queues.ids, id ∈ s'.queues.ids) : s'.Served := by
  refine ⟨hroutes ▸ hs.represents, fun r hr => hids r.2 (hs.live r (hroutes ▸ hr))⟩

theorem Served.destroyQueue (hs : s.Served) {queueId : UInt32}
    (hguard : s.keepsRoutes (.destroyQueue queueId) = true) :
    Served { s with queues := (cmdDestroyQueue s.queues queueId).2 } := by
  refine ⟨hs.represents, fun r hr => ?_⟩
  have hlive := hs.live r hr
  simp only [ids_cmdDestroyQueue]
  by_cases hid : r.2 = queueId
  · simp only [keepsRoutes, Bool.or_eq_true, List.all_eq_true, decide_eq_true_eq] at hguard
    rcases hguard with hnone | htwo
    · exact absurd hid (by simpa using hnone r hr)
    · rw [hid, ← List.count_pos_iff, List.count_erase_self]
      omega
  · exact (List.mem_erase_of_ne hid).mpr hlive

theorem Served.insertUrl (hs : s.Served) {i : Nat} {url : Bytes} {queueId : UInt32} {alloc : Bool}
    (htask : s.tasks[i]? = some (.adding url queueId))
    (hguard : s.keepsRoutes (.insertUrl i alloc) = true) :
    Served { s.finish i with routes := (insertUrl s.routes url queueId alloc).2 } := by
  obtain ⟨registered, hrep⟩ := hs.represents
  refine ⟨⟨_, hrep.insertUrl url queueId alloc⟩, fun r hr => ?_⟩
  rcases mem_insertUrl hrep.ranked hr with hr | ⟨rfl, hany, halloc⟩
  · exact hs.live r hr
  · simp only [keepsRoutes, htask, hany, halloc, Bool.or_false, Bool.not_true] at hguard
    obtain ⟨q, hq, hid⟩ := List.any_eq_true.mp hguard
    exact List.mem_map.mpr ⟨q, hq, of_decide_eq_true hid⟩

theorem Served.step (hs : s.Served) (hguard : s.keepsRoutes a = true)
    (h : s.step a = some s') : s'.Served := by
  cases transition_of_step h with
  | arrive request => exact hs.of_ids rfl fun _ hid => hid
  | route alloc htask => exact hs.of_ids (by simp) (by simp)
  | storePending channel alloc htask => exact hs.of_ids (by simp) (by simp)
  | buffer alloc htask => exact hs.of_ids rfl fun _ hid => (Queues.ids_update _ _ _).symm ▸ hid
  | createQueue maxPending => exact hs.of_ids rfl fun _ hid => hid
  | pushQueue alloc htask =>
    refine hs.of_ids rfl fun id hid => ?_
    cases alloc with
    | false => exact hid
    | true =>
      rw [Queues.ids, Rko.pushQueue, if_pos rfl, List.map_append]
      exact List.mem_append_left _ hid
  | destroyQueue queueId => exact hs.destroyQueue hguard
  | addUrl url hqueue => exact hs.of_ids rfl fun _ hid => hid
  | refuseUrl queueId url alloc => exact hs
  | insertUrl alloc htask => exact hs.insertUrl htask hguard
  | removeUrl url =>
    obtain ⟨registered, hrep⟩ := hs.represents
    refine ⟨⟨_, hrep.cmdRemoveUrl url⟩, fun r hr => hs.live r ?_⟩
    rw [cmdRemoveUrl_eq] at hr
    exact List.mem_of_mem_eraseP hr
  | recvRequest queueId bufLen left =>
    refine hs.of_ids (by simp) fun id hid => ?_
    rw [stepRecv_queues, ids_cmdRecvRequest]
    exact hid
  | sendUnknown hnone => exact hs
  | sendResponse htake => exact hs.of_ids rfl fun _ hid => hid
  | respond memory left alloc htask => exact hs.of_ids (by simp) (by simp)

end Steps

/-- If no step takes the queue of a route away, every route names a queue that exists, so that a
routed request finds its queue. -/
theorem routes_live_of_run {as : List UringAction} {s : UringState}
    (hguard : Guarded step (fun s a => s.keepsRoutes a = true) UringState.new as)
    (hrun : run step UringState.new as = some s) :
    s.RoutesLive ∧ ∀ path queueId, route s.routes path = some queueId →
      (s.queues.find queueId).isSome = true := by
  have hs : s.Served :=
    run_invariant (fun hs hguard h => hs.step hguard h) Served.new hguard hrun
  refine ⟨hs.live, fun path queueId hroute => ?_⟩
  obtain ⟨r, hfind, rfl⟩ := Option.map_eq_some_iff.mp (route_eq _ _ ▸ hroute)
  obtain ⟨q, hq, hid⟩ := List.mem_map.mp (hs.live r (List.mem_of_find?_eq_some hfind))
  rw [Queues.find, Option.isSome_map, List.find?_isSome]
  exact ⟨q, hq, decide_eq_true hid⟩

def oneRoute : List UringAction :=
  [.createQueue 0, .pushQueue 0 true, .addUrl 1 (ascii "/") true, .insertUrl 0 true]

theorem routes_live_after_other_destroyed :
    ∃ s, run step UringState.new
        (oneRoute ++ [.createQueue 0, .pushQueue 0 true, .destroyQueue 2]) = some s ∧
      s.routes = [(ascii "/", 1)] ∧ s.RoutesLive ∧
      ∀ path queueId, route s.routes path = some queueId → (s.queues.find queueId).isSome = true := by
  have hguard : Guarded step (fun s a => s.keepsRoutes a = true) UringState.new
      (oneRoute ++ [.createQueue 0, .pushQueue 0 true, .destroyQueue 2]) := by decide
  exact ⟨_, rfl, rfl, routes_live_of_run hguard rfl⟩

/-- DESTROY_QUEUE leaves the routes of its queue in the table. -/
theorem route_to_destroyed_queue :
    ∃ s, run step UringState.new (oneRoute ++ [.destroyQueue 1]) = some s ∧ s.tasks = [] ∧
      s.queues = [] ∧ route s.routes (ascii "/a") = some 1 ∧ ¬ s.RoutesLive :=
  ⟨_, rfl, by decide⟩

end UringState

end Rko
