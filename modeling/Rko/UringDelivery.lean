import Rko.UringSystem

namespace Rko

open GuardedRun

namespace UringState

def Buffered (s : UringState) (channel : Channel) : Prop :=
  ∃ q ∈ s.queues, ∃ b ∈ q.2.buffered, b.origin = channel

/-- Userspace has the request or can still fetch it. -/
def Obtainable (s : UringState) (channel : Channel) : Prop :=
  s.Buffered channel ∨ channel ∈ s.delivered

/-- The request was stored as pending, and `enqueue_serialized` is about to buffer it. -/
def InTransit (s : UringState) (channel : Channel) : Prop :=
  ∃ queueId reqId data, .buffering queueId reqId data channel ∈ s.tasks

def Settled (s : UringState) : Prop := ∀ t ∈ s.tasks, t.isBuffering = false

def NoneStranded (s : UringState) : Prop := ∀ p ∈ s.pending, s.Obtainable p.responseTx

instance (s : UringState) (channel : Channel) : Decidable (s.Buffered channel) :=
  inferInstanceAs (Decidable (∃ q ∈ s.queues, ∃ b ∈ q.2.buffered, b.origin = channel))

instance (s : UringState) (channel : Channel) : Decidable (s.Obtainable channel) :=
  inferInstanceAs (Decidable (s.Buffered channel ∨ channel ∈ s.delivered))

instance (s : UringState) : Decidable s.Settled :=
  inferInstanceAs (Decidable (∀ t ∈ s.tasks, t.isBuffering = false))

instance (s : UringState) : Decidable s.NoneStranded :=
  inferInstanceAs (Decidable (∀ p ∈ s.pending, s.Obtainable p.responseTx))

def stillPending (s : UringState) (channel : Channel) : Bool :=
  s.pending.any fun p => p.responseTx == channel

/-- The step does not take the last way to a request that still awaits its response. -/
def safe (s : UringState) : UringAction → Bool
  | .buffer i _ =>
    match s.tasks[i]? with
    | some (.buffering queueId _ _ channel) =>
      !s.stillPending channel || (s.queues.find queueId).any fun q =>
        decide (q.buffered.length.toUInt32 < q.maxPending)
    | _ => true
  | .destroyQueue queueId =>
    (s.queues.find queueId).all fun q => q.buffered.all fun b => !s.stillPending b.origin
  | .recvRequest queueId bufLen left =>
    (s.queues.find queueId).all fun q => q.buffered.head?.all fun b =>
      !s.stillPending b.origin ||
        decide (b.data.length ≤ bufLen.toNat ∧ b.data.length < 2 ^ 31 ∧ left = 0)
  | _ => true

/-- What holds between the steps of `enqueue_serialized` as well. -/
def Covered (s : UringState) : Prop :=
  ∀ p ∈ s.pending, s.Obtainable p.responseTx ∨ s.InTransit p.responseTx

variable {s s' : UringState}

theorem Covered.noneStranded (h : s.Covered) (hs : s.Settled) : s.NoneStranded :=
  fun p hp => (h p hp).resolve_right fun ⟨_, _, _, hmem⟩ => Bool.noConfusion (hs _ hmem)

theorem stillPending_of_mem {p : PendingRequest} (hp : p ∈ s.pending) :
    s.stillPending p.responseTx = true :=
  List.any_eq_true.mpr ⟨p, hp, by simp⟩

theorem Covered.mono (h : s.Covered) (hpending : ∀ p ∈ s'.pending, p ∈ s.pending)
    (hbuffered : ∀ c, s.Buffered c → s'.Buffered c) (hdelivered : s'.delivered = s.delivered)
    (htransit : ∀ c, s.InTransit c → s'.InTransit c) : s'.Covered := by
  intro p hp
  rcases h p (hpending p hp) with (hbuf | hdel) | hmove
  · exact Or.inl (Or.inl (hbuffered _ hbuf))
  · exact Or.inl (Or.inr (hdelivered ▸ hdel))
  · exact Or.inr (htransit _ hmove)

section Tasks

variable {i : Nat} {t : UringTask} {c : Channel}

theorem inTransit_start (h : s.InTransit c) (t : UringTask) : (s.start t).InTransit c := by
  obtain ⟨queueId, reqId, data, hmem⟩ := h
  exact ⟨queueId, reqId, data, List.mem_append_left _ hmem⟩

theorem inTransit_finish (hi : s.tasks[i]? = some t) (ht : t.isBuffering = false) (h : s.InTransit c) :
    (s.finish i).InTransit c := by
  obtain ⟨queueId, reqId, data, hmem⟩ := h
  obtain ⟨j, hj⟩ := List.mem_iff_getElem?.mp hmem
  refine ⟨queueId, reqId, data, List.mem_eraseIdx_iff_getElem?.mpr ⟨j, ?_, hj⟩⟩
  rintro rfl
  cases hi.symm.trans hj
  cases ht

theorem inTransit_advance (hi : s.tasks[i]? = some t) (ht : t.isBuffering = false) (h : s.InTransit c)
    (t' : UringTask) : (s.advance i t').InTransit c := by
  obtain ⟨queueId, reqId, data, hmem⟩ := h
  obtain ⟨j, hj⟩ := List.mem_iff_getElem?.mp hmem
  refine ⟨queueId, reqId, data, List.mem_iff_getElem?.mpr ⟨j, ?_⟩⟩
  have hne : i ≠ j := by
    rintro rfl
    cases hi.symm.trans hj
    cases ht
  simpa [advance, List.getElem?_set_ne hne] using hj

theorem Covered.start (h : s.Covered) (t : UringTask) : (s.start t).Covered :=
  h.mono (fun _ hp => hp) (fun _ hb => hb) rfl fun _ hc => inTransit_start hc t

theorem Covered.finish (h : s.Covered) (hi : s.tasks[i]? = some t) (ht : t.isBuffering = false) :
    (s.finish i).Covered :=
  h.mono (fun _ hp => hp) (fun _ hb => hb) rfl fun _ => inTransit_finish hi ht

theorem Covered.advance (h : s.Covered) (hi : s.tasks[i]? = some t) (ht : t.isBuffering = false)
    (t' : UringTask) : (s.advance i t').Covered :=
  h.mono (fun _ hp => hp) (fun _ hb => hb) rfl fun _ hc => inTransit_advance hi ht hc t'

end Tasks

theorem Covered.pushQueue (h : s.Covered) (id maxPending : UInt32) (alloc : Bool) :
    Covered { s with queues := (pushQueue s.queues id maxPending alloc).2 } := by
  refine h.mono (fun _ hp => hp) (fun c hb => ?_) rfl fun _ hc => hc
  obtain ⟨q, hq, b, hb, hc⟩ := hb
  refine ⟨q, ?_, b, hb, hc⟩
  cases alloc with
  | false => exact hq
  | true => exact List.mem_append_left _ hq

theorem buffered_update {queueId : UInt32} {f : RequestQueue → RequestQueue} {c : Channel}
    (hf : ∀ q, ∀ b ∈ q.buffered, b ∈ (f q).buffered) (hs : s'.queues = s.queues.update queueId f)
    (h : s.Buffered c) : s'.Buffered c := by
  obtain ⟨q, hq, b, hb, hc⟩ := h
  unfold Buffered
  rw [hs]
  rcases Queues.mem_update queueId f hq with hsame | ⟨-, hchanged⟩
  · exact ⟨q, hsame, b, hb, hc⟩
  · exact ⟨_, hchanged, b, hf q.2 b hb, hc⟩

theorem pushBuffered_keeps (q : RequestQueue) (b b' : BufferedRequest) (alloc : Bool)
    (hb : b ∈ q.buffered) :
    b ∈ (if q.buffered.length.toUInt32 < q.maxPending ∧ alloc then
      { q with buffered := q.buffered ++ [b'] } else q).buffered := by
  split
  · exact List.mem_append_left _ hb
  · exact hb

theorem Covered.buffer {i : Nat} {queueId : UInt32} {reqId : UInt64} {data : Bytes} {c : Channel}
    (h : s.Covered) (hi : s.tasks[i]? = some (.buffering queueId reqId data c))
    (hsafe : s.safe (.buffer i true) = true) :
    Covered { s.finish i with queues := pushBuffered s.queues queueId ⟨reqId, data, c⟩ true } := by
  intro p hp
  rcases h p hp with (hbuf | hdel) | ⟨queueId', reqId', data', hmem⟩
  · refine Or.inl (Or.inl (buffered_update ?_ rfl hbuf))
    exact fun q b hb => pushBuffered_keeps q b _ true hb
  · exact Or.inl (Or.inr hdel)
  · obtain ⟨j, hj⟩ := List.mem_iff_getElem?.mp hmem
    by_cases hij : j = i
    · subst hij
      cases hi.symm.trans hj
      have hpending : s.stillPending p.responseTx = true := stillPending_of_mem hp
      simp only [safe, hi, hpending, Bool.not_true, Bool.false_or, Option.any_eq_true,
        decide_eq_true_eq] at hsafe
      obtain ⟨q, hfind, hroom⟩ := hsafe
      refine Or.inl (Or.inl ⟨_, Queues.mem_update_of_find hfind, ⟨reqId, data, p.responseTx⟩, ?_,
        rfl⟩)
      simp [hroom]
    · exact Or.inr ⟨queueId', reqId', data', List.mem_eraseIdx_iff_getElem?.mpr ⟨j, hij, hj⟩⟩

theorem Covered.destroyQueue {queueId : UInt32} (h : s.Covered)
    (hsafe : s.safe (.destroyQueue queueId) = true) :
    Covered { s with queues := (cmdDestroyQueue s.queues queueId).2 } := by
  intro p hp
  rcases h p hp with (⟨q, hq, b, hb, hc⟩ | hdel) | hmove
  · rcases mem_cmdDestroyQueue hq queueId with hkept | hfind
    · exact Or.inl (Or.inl ⟨q, hkept, b, hb, hc⟩)
    · simp only [safe, hfind, Option.all_some, List.all_eq_true, Bool.not_eq_true'] at hsafe
      have hpending : s.stillPending p.responseTx = true := stillPending_of_mem hp
      have hgone := hsafe b hb
      rw [hc, hpending] at hgone
      cases hgone
  · exact Or.inl (Or.inr hdel)
  · exact Or.inr hmove

theorem mem_ite_cons {c d : Channel} {l : List Channel} {P : Prop} [Decidable P] (h : c ∈ l) :
    c ∈ if P then d :: l else l := by
  split
  · exact List.mem_cons_of_mem _ h
  · exact h

theorem Covered.recvRequest {queueId bufLen : UInt32} {left : Nat} (h : s.Covered)
    (hsafe : s.safe (.recvRequest queueId bufLen left) = true) :
    (s.stepRecv queueId bufLen left).Covered := by
  unfold stepRecv cmdRecvRequest
  cases hfind : s.queues.find queueId with
  | none => exact h
  | some q =>
    cases hbuf : q.buffered with
    | nil => simpa [hbuf] using h
    | cons b rest =>
      simp only [hbuf]
      intro p hp
      have hpending : s.stillPending p.responseTx = true := stillPending_of_mem hp
      rcases h p hp with (⟨q', hq', b', hb', hc⟩ | hdel) | hmove
      · rcases Queues.mem_update queueId (fun q => { q with buffered := rest }) hq'
          with hkept | ⟨hfound, hchanged⟩
        · exact Or.inl (Or.inl ⟨q', hkept, b', hb', hc⟩)
        · cases hfind.symm.trans hfound
          rw [hbuf] at hb'
          rcases List.mem_cons.mp hb' with rfl | hrest
          · simp only [safe, hfind, Option.all_some, hbuf, List.head?_cons, hc, hpending,
              Bool.not_true, Bool.false_or, decide_eq_true_eq] at hsafe
            obtain ⟨hlen, hlt, hleft⟩ := hsafe
            have hfull : (BitVec.ofNat 32 (min b'.data.length bufLen.toNat)).toInt =
                b'.data.length := by
              rw [Nat.min_eq_left hlen, ofNat_toInt hlt]
            refine Or.inl (Or.inr ?_)
            simp only [if_pos hleft, if_pos hfull, hc]
            exact List.mem_cons_self
          · exact Or.inl (Or.inl ⟨_, hchanged, b', hrest, hc⟩)
      · exact Or.inl (Or.inr (mem_ite_cons hdel))
      · exact Or.inr hmove

theorem Covered.storePending {i : Nat} {queueId : UInt32} {reqId : UInt64} {data : Bytes}
    (h : s.Covered) (hi : s.tasks[i]? = some (.enqueueing queueId reqId data))
    (channel alloc : Bool) : (s.stepStore i queueId reqId data channel alloc).Covered := by
  unfold stepStore
  cases channel with
  | false => exact h.finish hi rfl
  | true =>
    intro p hp
    have hold : p ∈ s.pending ∨ p.responseTx = s.nextChannel := by
      cases alloc with
      | false => exact Or.inl hp
      | true =>
        rcases List.mem_append.mp hp with hp | hp
        · exact Or.inl hp
        · exact Or.inr (by rw [List.mem_singleton.mp hp])
    rcases hold with hold | hnew
    · rcases h p hold with hgot | hmove
      · exact Or.inl hgot
      · exact Or.inr (inTransit_advance hi rfl hmove _)
    · refine Or.inr ⟨queueId, reqId, data, ?_⟩
      rw [hnew]
      have hlt := (List.getElem?_eq_some_iff.mp hi).1
      exact List.mem_set hlt _

theorem Covered.step {a : UringAction} (h : s.Covered) (halloc : a.allocates = true)
    (hsafe : s.safe a = true) (hstep : s.step a = some s') : s'.Covered := by
  cases transition_of_step hstep with
  | arrive => exact h.start _
  | createQueue => exact h.start _
  | addUrl => exact h.start _
  | refuseUrl => exact h
  | removeUrl => exact h
  | sendUnknown => exact h
  | destroyQueue queueId => exact h.destroyQueue hsafe
  | recvRequest queueId bufLen left => exact h.recvRequest hsafe
  | storePending channel alloc htask => exact h.storePending htask channel alloc
  | pushQueue alloc htask => exact (h.finish htask rfl).pushQueue _ _ alloc
  | insertUrl alloc htask => exact h.finish htask rfl
  | buffer alloc htask =>
    cases halloc
    exact h.buffer htask hsafe
  | route alloc htask =>
    exact stepRoute_cases _ _ alloc (h.finish htask rfl) fun _ => h.advance htask rfl _
  | sendResponse htake =>
    exact h.mono (takePending_subset htake) (fun _ hb => hb) rfl fun c hc => inTransit_start hc _
  | respond memory left alloc htask =>
    exact stepRespond_cases _ _ fun _ => h.finish htask rfl

/-- In every run whose steps allocate what they need and none of which takes the last way to a
request, no pending request is stranded once every `enqueue_serialized` has returned. -/
theorem noneStranded_of_safe_run {actions : List UringAction}
    (hsafe : Guarded step (fun s a => a.allocates = true ∧ s.safe a = true) new actions)
    (hrun : run step new actions = some s) (hsettled : s.Settled) : s.NoneStranded := by
  have hnew : new.Covered := fun p hp => absurd hp List.not_mem_nil
  have hcovered : s.Covered :=
    run_invariant (fun hs hguard hstep => hs.step hguard.1 hguard.2 hstep) hnew hsafe hrun
  exact hcovered.noneStranded hsettled

def oneBuffered : List UringAction :=
  [.createQueue 0, .pushQueue 0 true, .addUrl 1 (ascii "/") true, .insertUrl 0 true,
    .arrive ⟨.get, ascii "/a", .http11, [], []⟩, .route 0 true, .storePending 0 true true,
    .buffer 0 true]

theorem noneStranded_after_recv :
    ∃ s, Guarded step (fun s a => a.allocates = true ∧ s.safe a = true) new
        (oneBuffered ++ [.recvRequest 1 4096 0]) ∧
      run step new (oneBuffered ++ [.recvRequest 1 4096 0]) = some s ∧ s.Settled ∧
      s.pending.length = 1 ∧ s.NoneStranded := by
  have hsafe : Guarded step (fun s a => a.allocates = true ∧ s.safe a = true) new
      (oneBuffered ++ [.recvRequest 1 4096 0]) := by decide
  exact ⟨_, hsafe, rfl, by decide, by decide, noneStranded_of_safe_run hsafe rfl (by decide)⟩

/-- DESTROY_QUEUE drops the requests in its buffer, and their clients wait on. -/
theorem stranded_after_destroyQueue :
    ∃ s, (∀ a ∈ oneBuffered ++ [.destroyQueue 1], a.allocates = true) ∧
      run step new (oneBuffered ++ [.destroyQueue 1]) = some s ∧ s.Settled ∧ ¬ s.NoneStranded :=
  ⟨_, by decide, rfl, by decide, by decide⟩

end UringState

end Rko
