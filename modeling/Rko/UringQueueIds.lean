import Rko.CallPool
import Rko.UringQueues

namespace Rko

open GuardedRun CallPool

/-- The result that a CREATE_QUEUE will return once its queue is stored. -/
def UringTask.reserved : UringTask → Option CInt
  | .creating id _ => some id.toBitVec
  | _ => none

namespace Queues

variable {before after : Queues} {x : UInt32 × RequestQueue}

theorem update_append (hbefore : x.1 ∉ before.ids) (f : RequestQueue → RequestQueue) :
    update x.1 f (before ++ x :: after) = before ++ (x.1, f x.2) :: after := by
  induction before with
  | nil => rw [List.nil_append, List.nil_append, update, if_pos rfl]
  | cons y before ih =>
    have hy : y.1 ≠ x.1 := (List.ne_of_not_mem_cons hbefore).symm
    have hrest : x.1 ∉ ids before := List.not_mem_of_not_mem_cons hbefore
    rw [List.cons_append, List.cons_append, update, if_neg hy, ih hrest]

theorem find_append (hbefore : x.1 ∉ before.ids) :
    find (before ++ x :: after) x.1 = some x.2 := by
  induction before with
  | nil => rw [List.nil_append, find_cons, if_pos rfl]
  | cons y before ih =>
    have hy : y.1 ≠ x.1 := (List.ne_of_not_mem_cons hbefore).symm
    have hrest : x.1 ∉ ids before := List.not_mem_of_not_mem_cons hbefore
    rw [List.cons_append, find_cons, if_neg hy, ih hrest]

end Queues

theorem cmdDestroyQueue_append {before after : Queues} {x : UInt32 × RequestQueue}
    (hbefore : x.1 ∉ before.ids) :
    cmdDestroyQueue (before ++ x :: after) x.1 = (0, before ++ after) := by
  have hnone : before.findIdx? (fun q => q.1 = x.1) = none := by
    rw [List.findIdx?_eq_none_iff]
    intro q hq
    exact decide_eq_false fun heq => hbefore (heq ▸ List.mem_map_of_mem hq)
  have hidx : (before ++ x :: after).findIdx? (fun q => q.1 = x.1) = some before.length := by
    rw [List.findIdx?_append, hnone, List.findIdx?_cons]
    simp
  rw [cmdDestroyQueue, hidx]
  simp only [List.eraseIdx_append_of_length_le (Nat.le_refl _), Nat.sub_self,
    List.eraseIdx_cons_zero]

theorem cmdRecvRequest_append {before after : Queues} {x : UInt32 × RequestQueue}
    (hbefore : x.1 ∉ before.ids) (bufLen : UInt32) (left : Nat) :
    (cmdRecvRequest (before ++ x :: after) x.1 bufLen left).2 =
      (before ++ (x.1, { x.2 with buffered := x.2.buffered.tail }) :: after,
        x.2.buffered.head?) := by
  obtain ⟨id, q⟩ := x
  rw [cmdRecvRequest, Queues.find_append hbefore]
  cases hbuffered : q.buffered with
  | nil =>
    have hq : { q with buffered := [] } = q := by rw [← hbuffered]
    simp only [hbuffered, List.tail_nil, List.head?_nil, hq]
  | cons b rest =>
    simp only [hbuffered, Queues.update_append hbefore, List.tail_cons, List.head?_cons]

namespace UringState

/-- What a CREATE_QUEUE that succeeds in this step returns. -/
def created (s : UringState) : UringAction → Option CInt
  | .pushQueue i true =>
    match s.tasks[i]? with
    | some (.creating id maxPending) => some (Rko.pushQueue s.queues id maxPending true).1
    | _ => none
  | _ => none

/-- The results of the successful CREATE_QUEUE commands of a run. -/
def noteCreated (s : UringState) (a : UringAction) (_ : UringState) (issued : List CInt) :
    List CInt :=
  issued ++ (s.created a).toList

/-- A CREATE_QUEUE takes an id that is a positive `i32`. -/
def idFits (s : UringState) : UringAction → Bool
  | .createQueue _ => s.nextQueueId < 0x80000000
  | _ => true

/-- A command with the id of the queue `x` acts on `x` and leaves the others as they are. -/
structure ActsOn (s : UringState) (x : UInt32 × RequestQueue) (before after : Queues) : Prop where
  queues : s.queues = before ++ x :: after
  others : x.1 ∉ (before ++ after).ids
  destroy : cmdDestroyQueue s.queues x.1 = (0, before ++ after)
  recv : ∀ bufLen left, (cmdRecvRequest s.queues x.1 bufLen left).2 =
    (before ++ (x.1, { x.2 with buffered := x.2.buffered.tail }) :: after, x.2.buffered.head?)
  addUrl : ∀ url, s.step (.addUrl x.1 url true) = some (s.start (.adding url x.1))
  buffer : ∀ f, s.queues.update x.1 f = before ++ (x.1, f x.2) :: after

theorem ActsOn.of_nodup {s : UringState} (hids : s.queues.ids.Nodup) {x : UInt32 × RequestQueue}
    (hx : x ∈ s.queues) : ∃ before after, s.ActsOn x before after := by
  obtain ⟨before, after, hqueues⟩ := List.append_of_mem hx
  rw [hqueues, Queues.ids, List.map_append, List.map_cons, List.perm_middle.nodup_iff,
    ← List.map_append, List.nodup_cons] at hids
  have hothers : x.1 ∉ Queues.ids (before ++ after) := hids.1
  have hbefore : x.1 ∉ Queues.ids before := by
    rw [Queues.ids, List.map_append] at hothers
    exact fun hmem => hothers (List.mem_append_left _ hmem)
  refine ⟨before, after, hqueues, hothers, ?_, ?_, ?_, ?_⟩
  · rw [hqueues]
    exact cmdDestroyQueue_append hbefore
  · rw [hqueues]
    exact cmdRecvRequest_append hbefore
  · intro url
    have hany : (s.queues.any fun q => q.1 = x.1) = true :=
      List.any_eq_true.mpr ⟨x, hx, decide_eq_true rfl⟩
    rw [step, if_pos ⟨hany, rfl⟩]
  · rw [hqueues]
    exact Queues.update_append hbefore

def reserved (s : UringState) : List CInt := s.tasks.filterMap UringTask.reserved

/-- The ids handed out so far, stored or not, are different numbers below the counter, and the
counter has not left the positive `i32`. -/
structure FreshIds (s : UringState) (issued : List CInt) : Prop where
  pos : 1 ≤ s.nextQueueId.toNat
  bound : s.nextQueueId.toNat ≤ 2 ^ 31
  below : ∀ r ∈ issued ++ s.reserved, 1 ≤ r.toNat ∧ r.toNat < s.nextQueueId.toNat
  nodup : (issued ++ s.reserved).Nodup
  ids : s.queues.ids.Nodup
  stored : ∀ id ∈ s.queues.ids, id.toBitVec ∈ issued

section Steps

variable {s s' : UringState} {issued : List CInt} {a : UringAction}

theorem FreshIds.new : FreshIds UringState.new [] := by
  refine ⟨Nat.le_refl 1, ?_, ?_, List.nodup_nil, List.nodup_nil, ?_⟩
  · show 1 ≤ 2 ^ 31
    omega
  · intro r hr
    exact absurd hr List.not_mem_nil
  · intro id hid
    exact absurd hid List.not_mem_nil

theorem FreshIds.toInt_pos (h : s.FreshIds issued) {r : CInt} (hr : r ∈ issued ++ s.reserved) :
    0 < r.toInt := by
  obtain ⟨hpos, hlt⟩ := h.below r hr
  have hbound := h.bound
  rw [BitVec.toInt_eq_toNat_of_lt (by omega)]
  omega

/-- A step that hands out no id and stores no queue. -/
theorem FreshIds.mono (h : s.FreshIds issued) (hnext : s'.nextQueueId = s.nextQueueId)
    (hreserved : s'.reserved.Subperm s.reserved) (hids : s'.queues.ids.Sublist s.queues.ids) :
    s'.FreshIds issued := by
  have hall : (issued ++ s'.reserved).Subperm (issued ++ s.reserved) :=
    (List.subperm_append_left issued).mpr hreserved
  refine ⟨hnext ▸ h.pos, hnext ▸ h.bound, ?_, nodup_of_subperm hall h.nodup,
    h.ids.sublist hids, fun id hid => h.stored id (hids.subset hid)⟩
  intro r hr
  rw [hnext]
  exact h.below r (hall.subset hr)

theorem FreshIds.start (h : s.FreshIds issued) (t : UringTask) (ht : t.reserved = none) :
    (s.start t).FreshIds issued := by
  refine h.mono rfl ?_ (List.Sublist.refl _)
  rw [reserved, UringState.start, filterMap_concat, ht, Option.toList_none, List.append_nil]
  exact List.Subperm.refl _

theorem FreshIds.finish (h : s.FreshIds issued) (i : Nat) : (s.finish i).FreshIds issued :=
  h.mono rfl ((List.eraseIdx_sublist _ _).filterMap _).subperm (List.Sublist.refl _)

theorem FreshIds.advance (h : s.FreshIds issued) {i : Nat} {t : UringTask}
    (htask : s.tasks[i]? = some t) (t' : UringTask) (ht' : t'.reserved = none) :
    (s.advance i t').FreshIds issued :=
  h.mono rfl (filterMap_set_subperm UringTask.reserved htask ht') (List.Sublist.refl _)

/-- A step that touches neither the counter, the calls nor the queues. -/
theorem FreshIds.frame (h : s.FreshIds issued) (hnext : s'.nextQueueId = s.nextQueueId)
    (htasks : s'.tasks = s.tasks) (hqueues : s'.queues.ids = s.queues.ids) :
    s'.FreshIds issued := by
  refine h.mono hnext ?_ (hqueues ▸ List.Sublist.refl _)
  rw [reserved, htasks]
  exact List.Subperm.refl _

theorem FreshIds.createQueue (h : s.FreshIds issued) (hroom : s.nextQueueId < 0x80000000)
    (maxPending : UInt32) :
    FreshIds { s.start (.creating s.nextQueueId maxPending) with
      nextQueueId := s.nextQueueId + 1 } issued := by
  have hlt : s.nextQueueId.toNat < 2 ^ 31 := hroom
  have hnext : (s.nextQueueId + 1).toNat = s.nextQueueId.toNat + 1 := by
    rw [UInt32.toNat_add]
    show (s.nextQueueId.toNat + 1) % 2 ^ 32 = _
    omega
  have hreserved : reserved { s.start (.creating s.nextQueueId maxPending) with
      nextQueueId := s.nextQueueId + 1 } = s.reserved ++ [s.nextQueueId.toBitVec] :=
    filterMap_concat UringTask.reserved s.tasks _
  have hunused : s.nextQueueId.toBitVec ∉ issued ++ s.reserved := fun hmem =>
    Nat.lt_irrefl _ (h.below _ hmem).2
  refine ⟨?_, ?_, ?_, ?_, h.ids, h.stored⟩
  · show 1 ≤ (s.nextQueueId + 1).toNat
    omega
  · show (s.nextQueueId + 1).toNat ≤ 2 ^ 31
    omega
  · intro r hr
    rw [hreserved, ← List.append_assoc] at hr
    show 1 ≤ r.toNat ∧ r.toNat < (s.nextQueueId + 1).toNat
    rcases List.mem_append.mp hr with hold | hlast
    · have hold := h.below r hold
      omega
    · rw [List.mem_singleton.mp hlast]
      have hpos := h.pos
      exact ⟨hpos, hnext ▸ Nat.lt_succ_self _⟩
  · rw [hreserved, ← List.append_assoc, (List.perm_append_singleton _ _).nodup_iff]
    exact List.nodup_cons.mpr ⟨hunused, h.nodup⟩

theorem FreshIds.pushQueue (h : s.FreshIds issued) {i : Nat} {id maxPending : UInt32}
    (htask : s.tasks[i]? = some (.creating id maxPending)) :
    FreshIds { s.finish i with queues := (Rko.pushQueue s.queues id maxPending true).2 }
      (issued ++ [id.toBitVec]) := by
  -- the id moves from the reserved results to the issued ones
  have hperm : (issued ++ [id.toBitVec] ++ (s.finish i).reserved).Perm (issued ++ s.reserved) := by
    rw [List.append_assoc]
    exact (filterMap_eraseIdx UringTask.reserved htask).append_left issued
  have hmem : id.toBitVec ∈ s.reserved :=
    List.mem_filterMap.mpr ⟨_, List.mem_of_getElem? htask, rfl⟩
  have hunused : id.toBitVec ∉ issued := fun hissued =>
    (List.nodup_append.mp h.nodup).2.2 _ hissued _ hmem rfl
  have hids : (Rko.pushQueue s.queues id maxPending true).2.ids = s.queues.ids ++ [id] := by
    rw [Queues.ids, Rko.pushQueue, if_pos rfl, List.map_append]
    rfl
  refine ⟨h.pos, h.bound, fun r hr => h.below r (hperm.mem_iff.mp hr), hperm.nodup_iff.mpr h.nodup,
    ?_, ?_⟩
  · rw [hids, (List.perm_append_singleton _ _).nodup_iff]
    exact List.nodup_cons.mpr ⟨fun hlive => hunused (h.stored id hlive), h.ids⟩
  · intro id' hid'
    rw [hids] at hid'
    rcases List.mem_append.mp hid' with hold | hlast
    · exact List.mem_append_left _ (h.stored id' hold)
    · rw [List.mem_singleton.mp hlast]
      exact List.mem_append_right _ (List.mem_singleton_self _)

theorem FreshIds.step (h : s.FreshIds issued) (hroom : s.idFits a = true)
    (hstep : s.step a = some s') : s'.FreshIds (noteCreated s a s' issued) := by
  have hquiet : s.created a = none → s'.FreshIds issued →
      s'.FreshIds (noteCreated s a s' issued) := by
    intro hnone hfresh
    rw [noteCreated, hnone, Option.toList_none, List.append_nil]
    exact hfresh
  cases transition_of_step hstep with
  | arrive request =>
    exact hquiet rfl ((h.start (.routing request s.nextReqId) rfl).frame rfl rfl rfl)
  | route alloc htask =>
    exact hquiet rfl (stepRoute_cases _ _ alloc (h.finish _) fun _ => h.advance htask _ rfl)
  | storePending channel alloc htask =>
    refine hquiet rfl (stepStore_cases _ _ _ channel alloc (h.finish _) fun _ => ?_)
    exact (h.advance htask (.buffering _ _ _ _) rfl).frame rfl rfl rfl
  | buffer alloc htask => exact hquiet rfl ((h.finish _).frame rfl rfl (Queues.ids_update _ _ _))
  | createQueue maxPending => exact hquiet rfl (h.createQueue (of_decide_eq_true hroom) _)
  | pushQueue alloc htask =>
    cases alloc with
    | false => exact hquiet rfl (h.finish _)
    | true =>
      rw [noteCreated, created, htask]
      exact h.pushQueue htask
  | destroyQueue queueId =>
    refine hquiet rfl (h.mono rfl (List.Subperm.refl _) ?_)
    rw [ids_cmdDestroyQueue]
    exact List.erase_sublist
  | addUrl url hqueue => exact hquiet rfl (h.start _ rfl)
  | refuseUrl queueId url alloc => exact hquiet rfl h
  | insertUrl alloc htask => exact hquiet rfl ((h.finish _).frame rfl rfl rfl)
  | removeUrl url => exact hquiet rfl (h.frame rfl rfl rfl)
  | recvRequest queueId bufLen left =>
    obtain ⟨delivered, hrecv⟩ := s.stepRecv_eq queueId bufLen left
    refine hquiet rfl ?_
    rw [hrecv]
    exact h.frame rfl rfl (ids_cmdRecvRequest _ _ _ _)
  | sendUnknown hnone => exact hquiet rfl h
  | sendResponse htake =>
    exact hquiet rfl ((h.start (.responding _ _) rfl).frame rfl rfl rfl)
  | respond memory left alloc htask =>
    exact hquiet rfl (stepRespond_cases _ _ fun _ => (h.finish _).frame rfl rfl rfl)

theorem mem_reserved_of_created {r : CInt} (h : s.created a = some r) : r ∈ s.reserved := by
  unfold created at h
  split at h
  next i =>
    split at h
    next id maxPending htask =>
      cases h
      exact List.mem_filterMap.mpr ⟨_, List.mem_of_getElem? htask, rfl⟩
    next => cases h
  next => cases h

end Steps

/-- While the ids are positive, every successful CREATE_QUEUE returns a positive number that no
CREATE_QUEUE returned before, and a command with the id of a queue acts on that queue only. -/
theorem queue_ids_unambiguous {as : List UringAction} {s : UringState}
    (hguard : Guarded step (fun s a => s.idFits a = true) UringState.new as)
    (hrun : run step UringState.new as = some s) :
    ∃ issued, run (recorded step noteCreated) (UringState.new, []) as = some (s, issued) ∧
      issued.Nodup ∧ (∀ r ∈ issued, 0 < r.toInt) ∧
      (∀ x ∈ s.queues, x.1.toBitVec ∈ issued ∧ ∃ before after, s.ActsOn x before after) ∧
      ∀ a r, s.created a = some r →
        0 < r.toInt ∧ r ∉ issued ∧ ∀ id ∈ s.queues.ids, id.toBitVec ≠ r := by
  obtain ⟨issued, hissued, h⟩ :=
    recorded_invariant (fun hs hroom hstep => hs.step hroom hstep) FreshIds.new hguard hrun
  refine ⟨issued, hissued, h.nodup.sublist (List.sublist_append_left _ _),
    fun r hr => h.toInt_pos (List.mem_append_left _ hr), ?_, ?_⟩
  · intro x hx
    exact ⟨h.stored x.1 (List.mem_map_of_mem hx), ActsOn.of_nodup h.ids hx⟩
  · intro a r hr
    have hreserved := mem_reserved_of_created hr
    have hunused : r ∉ issued := fun hmem =>
      (List.nodup_append.mp h.nodup).2.2 _ hmem _ hreserved rfl
    refine ⟨h.toInt_pos (List.mem_append_right _ hreserved), hunused, ?_⟩
    intro id hid heq
    exact hunused (heq ▸ h.stored id hid)

/-- Three CREATE_QUEUE commands, of which the second has not stored its queue yet, and a
DESTROY_QUEUE. -/
def threeCreated : List UringAction :=
  [.createQueue 0, .pushQueue 0 true, .createQueue 8, .createQueue 0, .pushQueue 1 true,
    .destroyQueue 1]

theorem queue_ids_unambiguous_three :
    ∃ s, run step UringState.new threeCreated = some s ∧ s.queues.ids = [3] ∧
      s.created (.pushQueue 0 true) = some 2 ∧
      ∃ issued, run (recorded step noteCreated) (UringState.new, []) threeCreated =
          some (s, issued) ∧
        issued.Nodup ∧ (∀ r ∈ issued, 0 < r.toInt) ∧
        (∀ x ∈ s.queues, x.1.toBitVec ∈ issued ∧ ∃ before after, s.ActsOn x before after) ∧
        ∀ a r, s.created a = some r →
          0 < r.toInt ∧ r ∉ issued ∧ ∀ id ∈ s.queues.ids, id.toBitVec ≠ r := by
  have hguard : Guarded step (fun s a => s.idFits a = true) UringState.new threeCreated := by
    decide
  exact ⟨_, rfl, rfl, rfl, queue_ids_unambiguous hguard rfl⟩

/-- Queues are created and destroyed again, `n` of them, the first with this id. -/
def rounds : UInt32 → Nat → List UringAction
  | _, 0 => []
  | id, n + 1 => [.createQueue 0, .pushQueue 0 true, .destroyQueue id] ++ rounds (id + 1) n

section Rounds

variable {s : UringState} {id : UInt32}

theorem step_createQueue (htasks : s.tasks = []) (hnext : s.nextQueueId = id) :
    s.step (.createQueue 0) =
      some { s with tasks := [.creating id 256], nextQueueId := id + 1 } := by
  rw [step, start, htasks, hnext]
  rfl

theorem run_round (htasks : s.tasks = []) (hnext : s.nextQueueId = id)
    (hunused : id ∉ s.queues.ids) :
    run step s [.createQueue 0, .pushQueue 0 true, .destroyQueue id] =
      some { s with nextQueueId := id + 1 } := by
  have hdestroy : cmdDestroyQueue (s.queues ++ [(id, ⟨id, 256, []⟩)]) id = (0, s.queues ++ []) :=
    cmdDestroyQueue_append (x := (id, ⟨id, 256, []⟩)) hunused
  rw [List.append_nil] at hdestroy
  rw [run, step_createQueue htasks hnext, Option.bind_some, run, step]
  simp only [List.getElem?_cons_zero, Rko.pushQueue, if_true, Option.bind_some, run, step, hdestroy,
    finish, List.eraseIdx_cons_zero, ← htasks]

theorem run_rounds (n : Nat) (htasks : s.tasks = []) (hnext : s.nextQueueId = id)
    (hunused : ∀ k < n, id + UInt32.ofNat k ∉ s.queues.ids) :
    run step s (rounds id n) = some { s with nextQueueId := id + UInt32.ofNat n } := by
  have hzero : id + UInt32.ofNat 0 = id := UInt32.add_zero id
  induction n generalizing s id with
  | zero =>
    rw [hzero, ← hnext]
    rfl
  | succ n ih =>
    have hshift : ∀ k, id + 1 + UInt32.ofNat k = id + UInt32.ofNat (k + 1) := by
      intro k
      rw [UInt32.ofNat_add, UInt32.add_assoc, UInt32.add_comm 1]
      rfl
    have hfirst : id ∉ s.queues.ids := by
      have hk := hunused 0 (Nat.succ_pos n)
      rwa [hzero] at hk
    have hrest : ∀ k < n, id + 1 + UInt32.ofNat k ∉ s.queues.ids := by
      intro k hk
      rw [hshift]
      exact hunused (k + 1) (Nat.succ_lt_succ hk)
    rw [rounds, run_append, run_round htasks hnext hfirst, Option.bind_some,
      ih (s := { s with nextQueueId := id + 1 }) htasks rfl hrest (UInt32.add_zero _), hshift]

/-- The next queue gets the id that the rounds have brought the counter to, whatever it is. -/
theorem create_after_rounds (n : Nat) (htasks : s.tasks = []) (hnext : s.nextQueueId = id)
    (hunused : ∀ k < n, id + UInt32.ofNat k ∉ s.queues.ids) :
    ∃ s₁ s₂, run step s (rounds id n ++ [.createQueue 0]) = some s₁ ∧ s₁.queues = s.queues ∧
      s₁.created (.pushQueue 0 true) = some (id + UInt32.ofNat n).toBitVec ∧
      s₁.step (.pushQueue 0 true) = some s₂ ∧
      s₂.queues.ids = s.queues.ids ++ [id + UInt32.ofNat n] := by
  have hcreate :=
    step_createQueue (s := { s with nextQueueId := id + UInt32.ofNat n }) htasks rfl
  rw [run_append, run_rounds n htasks hnext hunused, Option.bind_some, run, hcreate]
  refine ⟨_, _, rfl, rfl, rfl, rfl, ?_⟩
  rw [Queues.ids, Rko.pushQueue, if_pos rfl, List.map_append]
  rfl

end Rounds

/-- After 2 ^ 31 - 1 queues have come and gone, CREATE_QUEUE returns a negative number. After
2 ^ 32 - 1 of them it returns the id of a queue that was there all the time, and DESTROY_QUEUE with
that id destroys one of the two. -/
theorem queue_ids_wrap_round :
    (∃ s r, run step UringState.new (rounds 1 (2 ^ 31 - 1) ++ [.createQueue 0]) = some s ∧
      s.created (.pushQueue 0 true) = some r ∧ r.toInt = -2 ^ 31) ∧
    ∃ s s', run step UringState.new ([.createQueue 0, .pushQueue 0 true] ++
        (rounds 2 (2 ^ 32 - 1) ++ [.createQueue 0])) = some s ∧
      s.queues.ids = [1] ∧ s.created (.pushQueue 0 true) = some 1 ∧
      s.step (.pushQueue 0 true) = some s' ∧ s'.queues.ids = [1, 1] ∧
      (cmdDestroyQueue s'.queues 1).2.ids = [1] := by
  constructor
  · obtain ⟨s, -, hrun, -, hcreated, -, -⟩ :=
      create_after_rounds (2 ^ 31 - 1) (s := UringState.new) rfl rfl fun k _ => List.not_mem_nil
    exact ⟨s, _, hrun, hcreated, by decide⟩
  · obtain ⟨s₁, hrun₁, htasks, hnext, hids⟩ :
        ∃ s₁, run step UringState.new [.createQueue 0, .pushQueue 0 true] = some s₁ ∧
          s₁.tasks = [] ∧ s₁.nextQueueId = 2 ∧ s₁.queues.ids = [1] := ⟨_, rfl, rfl, rfl, rfl⟩
    have hother : ∀ k < 2 ^ 32 - 1, (2 : UInt32) + UInt32.ofNat k ∉ s₁.queues.ids := by
      intro k hk
      rw [hids, List.mem_singleton, ← UInt32.toNat_inj, UInt32.toNat_add, UInt32.toNat_ofNat']
      show ¬ (2 + k % 2 ^ 32) % 2 ^ 32 = 1
      omega
    have hlast : (2 : UInt32) + UInt32.ofNat (2 ^ 32 - 1) = 1 := by decide
    obtain ⟨s, s', hrun, hqueues, hcreated, hpush, hids'⟩ :=
      create_after_rounds (2 ^ 32 - 1) htasks hnext hother
    rw [hlast] at hcreated hids'
    rw [hids] at hids'
    refine ⟨s, s', ?_, by rw [hqueues, hids], hcreated, hpush, hids', ?_⟩
    · rw [run_append, hrun₁, Option.bind_some, hrun]
    · rw [ids_cmdDestroyQueue, hids']
      rfl

end UringState

end Rko
