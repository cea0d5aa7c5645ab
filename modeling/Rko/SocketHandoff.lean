import Rko.NoWaitLock

namespace Rko

open GuardedRun

/-- Where a poll of a `SocketFuture` is: `contend` follows a failed `try_lock`, and `attempt` is
before the operation, with which the poll ends. -/
inductive HandoffPoll
  | idle | tryLock | contend | storeWaker | unlock | register | attempt
deriving DecidableEq, Repr

namespace HandoffPoll

def holdsLock : HandoffPoll → Bool
  | storeWaker => true
  | unlock => true
  | _ => false

/-- Past the place where the waker is stored. -/
def isPastStore : HandoffPoll → Bool
  | contend => true
  | unlock => true
  | register => true
  | attempt => true
  | _ => false

end HandoffPoll

/-- Where `wake_callback` is, with the time of the event it was invoked for; `unlock` says whether
there was a waker to clone. -/
inductive HandoffCallback
  | idle
  | tryLock (event : Nat)
  | contend (event : Nat)
  | cloneWaker (event : Nat)
  | unlock (event : Nat) (found : Bool)
  | wake (event : Nat)
deriving DecidableEq, Repr

namespace HandoffCallback

def holdsLock : HandoffCallback → Bool
  | cloneWaker _ => true
  | unlock _ _ => true
  | _ => false

def event : HandoffCallback → Option Nat
  | idle => none
  | tryLock e => some e
  | contend e => some e
  | cloneWaker e => some e
  | unlock e _ => some e
  | wake e => some e

end HandoffCallback

/-- A `SocketFuture` and its `wake_callback`, cut into the steps of their `NoWaitLock`. All wakers
are of one task, so that `waker` says only whether one is stored. `events` are the times of the
events whose callback the kernel is still to invoke. The last four fields are history: whether a
poll has returned `Ready`, the time of the operation of the last finished poll if that returned
`Pending`, the events whose callback has returned, and the times at which the waker was invoked. -/
structure SocketHandoff where
  lock : LockState
  waker : Bool
  isQueued : Bool
  ready : Bool
  poll : HandoffPoll
  callback : HandoffCallback
  events : List Nat
  now : Nat
  finished : Bool
  operated : Option Nat
  returned : List Nat
  wakes : List Nat
deriving DecidableEq, Repr

/-- `event` makes the socket ready, `consume` is somebody else using that up, and `attempt` says
whether the operation returned `EAGAIN`. -/
inductive HandoffAction
  | event
  | consume
  | beginPoll
  | poll
  | attempt (again : Bool)
  | notify (i : Nat)
  | callback
deriving DecidableEq, Repr

namespace SocketHandoff

def new (ready : Bool) : SocketHandoff where
  lock := .unlocked
  waker := false
  isQueued := false
  ready := ready
  poll := .idle
  callback := .idle
  events := []
  now := 0
  finished := false
  operated := none
  returned := []
  wakes := []

/-- The steps of a poll before its operation. -/
def stepPoll (s : SocketHandoff) : Option SocketHandoff :=
  match s.poll with
  | .tryLock =>
    if s.lock = .unlocked then some { s with lock := .locked, poll := .storeWaker }
    else some { s with poll := .contend }
  | .contend => some { s with lock := s.lock.contend, poll := .register }
  | .storeWaker => some { s with waker := true, poll := .unlock }
  | .unlock => some { s with lock := .unlocked, poll := .register }
  | .register => some { s with isQueued := true, poll := .attempt }
  | _ => none

/-- Returns `EAGAIN` only if the socket is not ready. -/
def stepAttempt (s : SocketHandoff) (again : Bool) : Option SocketHandoff :=
  if s.poll = .attempt ∧ ¬ (again = true ∧ s.ready = true) then
    some { s with
      poll := .idle
      finished := !again
      operated := if again then some s.now else none }
  else none

def stepCallback (s : SocketHandoff) : Option SocketHandoff :=
  match s.callback with
  | .idle => none
  | .tryLock e =>
    if s.lock = .unlocked then some { s with lock := .locked, callback := .cloneWaker e }
    else some { s with callback := .contend e }
  | .contend e =>
    some { s with lock := s.lock.contend, callback := .idle, returned := s.returned ++ [e] }
  | .cloneWaker e => some { s with callback := .unlock e s.waker }
  | .unlock e true => some { s with lock := .unlocked, callback := .wake e }
  | .unlock e false =>
    some { s with lock := .unlocked, callback := .idle, returned := s.returned ++ [e] }
  | .wake e =>
    some { s with
      callback := .idle
      returned := s.returned ++ [e]
      wakes := s.wakes ++ [s.now] }

/-- The callbacks are serialised, and there is none while the future is not on the wait queue. -/
def stepNotify (s : SocketHandoff) (i : Nat) : Option SocketHandoff :=
  match s.callback, s.events[i]? with
  | .idle, some e =>
    if s.isQueued then some { s with events := s.events.eraseIdx i, callback := .tryLock e }
    else some { s with events := s.events.eraseIdx i }
  | _, _ => none

def act (s : SocketHandoff) : HandoffAction → Option SocketHandoff
  | .event => some { s with ready := true, events := s.events ++ [s.now] }
  | .consume => some { s with ready := false }
  | .beginPoll =>
    if s.poll = .idle ∧ s.finished = false then some { s with poll := .tryLock } else none
  | .poll => s.stepPoll
  | .attempt again => s.stepAttempt again
  | .notify i => s.stepNotify i
  | .callback => s.stepCallback

def step (s : SocketHandoff) (a : HandoffAction) : Option SocketHandoff :=
  (s.act a).map fun s' => { s' with now := s.now + 1 }

/-- A poll that has not run its operation is in progress, or the waker was invoked since. -/
def Covered (s : SocketHandoff) (op : Nat) : Prop := s.poll ≠ .idle ∨ ∃ w ∈ s.wakes, op < w

structure Handed (s : SocketHandoff) : Prop where
  locked : s.lock = .unlocked ↔ s.poll.holdsLock = false ∧ s.callback.holdsLock = false
  exclusive : s.poll.holdsLock = true → s.callback.holdsLock = false
  queued : s.callback ≠ .idle → s.isQueued = true
  waker : s.isQueued = true → s.waker = true
  stored : s.poll.isPastStore = true → s.waker = true
  found : ∀ {e}, s.callback ≠ .unlock e false
  events_past : ∀ e ∈ s.events, e < s.now
  callback_past : ∀ e ∈ s.callback.event, e < s.now
  returned_past : ∀ e ∈ s.returned, e < s.now
  operated_past : ∀ op ∈ s.operated, op < s.now
  covered : ∀ {op e}, s.operated = some op → e ∈ s.returned ∨ s.callback = .contend e → op < e →
    s.Covered op

namespace Handed

variable {s s' : SocketHandoff}

theorem new (ready : Bool) : Handed (SocketHandoff.new ready) := by
  constructor <;> simp [SocketHandoff.new, HandoffPoll.holdsLock, HandoffCallback.holdsLock,
    HandoffPoll.isPastStore, HandoffCallback.event]

theorem tick (h : s.Handed) : Handed { s with now := s.now + 1 } :=
  { h with
    events_past := fun e he => Nat.lt_succ_of_lt (h.events_past e he)
    callback_past := fun e he => Nat.lt_succ_of_lt (h.callback_past e he)
    returned_past := fun e he => Nat.lt_succ_of_lt (h.returned_past e he)
    operated_past := fun op hop => Nat.lt_succ_of_lt (h.operated_past op hop) }

theorem event (h : s.Handed) :
    Handed { s with ready := true, events := s.events ++ [s.now], now := s.now + 1 } := by
  refine { h.tick with events_past := fun e he => ?_ }
  rcases List.mem_append.mp he with hold | hnew
  · exact Nat.lt_succ_of_lt (h.events_past e hold)
  · rw [List.mem_singleton.mp hnew]
    exact Nat.lt_succ_self s.now

theorem beginPoll (h : s.Handed) (hpoll : s.poll = .idle) :
    Handed { s with poll := .tryLock, now := s.now + 1 } := by
  have hlocked := h.locked
  rw [hpoll] at hlocked
  exact { h.tick with
    locked := hlocked
    exclusive := nofun
    stored := nofun
    covered := fun _ _ _ => Or.inl nofun }

/-- A poll in progress covers whatever happens to the lock and the callback. -/
theorem pollMoves (h : s.Handed) {lock : LockState} {waker isQueued : Bool} {poll : HandoffPoll}
    (hlocked : lock = .unlocked ↔ poll.holdsLock = false ∧ s.callback.holdsLock = false)
    (hexclusive : poll.holdsLock = true → s.callback.holdsLock = false)
    (hqueued : s.isQueued = true → isQueued = true) (hwaker : isQueued = true → waker = true)
    (hstored : poll.isPastStore = true → waker = true) (hpoll : poll ≠ .idle) :
    Handed { s with
      lock := lock, waker := waker, isQueued := isQueued, poll := poll, now := s.now + 1 } :=
  { h.tick with
    locked := hlocked
    exclusive := hexclusive
    queued := fun hne => hqueued (h.queued hne)
    waker := hwaker
    stored := hstored
    covered := fun _ _ _ => Or.inl hpoll }

theorem contend_unlocked (l : LockState) : l.contend = .unlocked ↔ l = .unlocked := by
  cases l <;> decide

/-- A poll fails to take the lock only from a callback, and the waker is stored by then. -/
theorem waker_of_lock (h : s.Handed) (hheld : s.lock ≠ .unlocked) (hpoll : s.poll.holdsLock = false) :
    s.waker = true := by
  refine h.waker (h.queued fun hidle => hheld (h.locked.mpr ⟨hpoll, ?_⟩))
  rw [hidle]
  rfl

theorem stepPoll (h : s.Handed) (hstep : s.stepPoll = some s') :
    Handed { s' with now := s.now + 1 } := by
  have hlocked := h.locked
  have hexclusive := h.exclusive
  have hstored := h.stored
  cases hpoll : s.poll with
  | idle => simp [SocketHandoff.stepPoll, hpoll] at hstep
  | tryLock =>
    rw [SocketHandoff.stepPoll, hpoll] at hstep
    rw [hpoll] at hlocked
    dsimp only at hstep
    split at hstep
    next hfree =>
      cases Option.some.inj hstep
      have hcallback := (hlocked.mp hfree).2
      exact h.pollMoves (by simp [HandoffPoll.holdsLock]) (fun _ => hcallback) id h.waker nofun nofun
    next hheld =>
      cases Option.some.inj hstep
      have hwaker := h.waker_of_lock hheld (by rw [hpoll]; rfl)
      exact h.pollMoves hlocked nofun id h.waker (fun _ => hwaker) nofun
  | contend =>
    rw [SocketHandoff.stepPoll, hpoll] at hstep
    rw [hpoll] at hlocked hstored
    cases Option.some.inj hstep
    exact h.pollMoves ((contend_unlocked s.lock).trans hlocked) nofun id h.waker hstored nofun
  | storeWaker =>
    rw [SocketHandoff.stepPoll, hpoll] at hstep
    rw [hpoll] at hlocked hexclusive
    cases Option.some.inj hstep
    exact h.pollMoves hlocked hexclusive id (fun _ => rfl) (fun _ => rfl) nofun
  | unlock =>
    rw [SocketHandoff.stepPoll, hpoll] at hstep
    rw [hpoll] at hexclusive hstored
    cases Option.some.inj hstep
    have hcallback := hexclusive rfl
    exact h.pollMoves (by simp [HandoffPoll.holdsLock, hcallback]) nofun id h.waker hstored nofun
  | register =>
    rw [SocketHandoff.stepPoll, hpoll] at hstep
    rw [hpoll] at hlocked hstored
    cases Option.some.inj hstep
    exact h.pollMoves hlocked nofun (fun _ => rfl) (fun _ => hstored rfl) hstored nofun
  | attempt => simp [SocketHandoff.stepPoll, hpoll] at hstep

/-- All events so far were before the operation. -/
theorem stepAttempt (h : s.Handed) {again : Bool} (hstep : s.stepAttempt again = some s') :
    Handed { s' with now := s.now + 1 } := by
  obtain ⟨⟨hpoll, -⟩, ⟨⟩⟩ := Option.ite_none_right_eq_some.mp hstep
  have hlocked := h.locked
  rw [hpoll] at hlocked
  refine { h.tick with
    locked := hlocked, exclusive := nofun, stored := nofun, operated_past := ?_, covered := ?_ }
  · intro op hop
    cases again with
    | true =>
      cases Option.some.inj hop
      exact Nat.lt_succ_self s.now
    | false => cases hop
  · intro op e hop he hlt
    cases again with
    | true =>
      cases Option.some.inj hop
      have hpast : e < s.now := by
        rcases he with hreturned | hcallback
        · exact h.returned_past e hreturned
        · have hcontend : s.callback = .contend e := hcallback
          exact h.callback_past e (by rw [hcontend]; rfl)
      omega
    | false => cases hop

theorem stepNotify (h : s.Handed) {i : Nat} (hstep : s.stepNotify i = some s') :
    Handed { s' with now := s.now + 1 } := by
  have hlocked := h.locked
  unfold SocketHandoff.stepNotify at hstep
  split at hstep
  next e hcallback hevent =>
    have hpast := h.events_past e (List.mem_of_getElem? hevent)
    have hevents : ∀ e' ∈ s.events.eraseIdx i, e' < s.now + 1 := by
      intro e' he'
      exact Nat.lt_succ_of_lt (h.events_past e' (List.mem_of_mem_eraseIdx he'))
    split at hstep
    next hqueued =>
      cases Option.some.inj hstep
      rw [hcallback] at hlocked
      refine { h.tick with
        locked := hlocked, exclusive := fun _ => rfl, queued := fun _ => hqueued, found := nofun
        events_past := hevents, callback_past := ?_, covered := ?_ }
      · intro e' he'
        cases Option.some.inj he'
        exact Nat.lt_succ_of_lt hpast
      · intro op e' hop he' hlt
        rcases he' with hreturned | hcontend
        · exact h.covered hop (Or.inl hreturned) hlt
        · cases hcontend
    next =>
      cases Option.some.inj hstep
      exact { h.tick with events_past := hevents }
  next => cases hstep

theorem poll_free (h : s.Handed) (hheld : s.callback.holdsLock = true) :
    s.poll.holdsLock = false := by
  by_contra hpoll
  rw [h.exclusive (Bool.eq_true_of_not_eq_false hpoll)] at hheld
  cases hheld

/-- A step inside the callback: the lock may change hands, the callback may have failed to take it. -/
theorem callbackMoves (h : s.Handed) {lock : LockState} {callback : HandoffCallback}
    (hbusy : s.callback ≠ .idle) (hevent : callback.event = s.callback.event)
    (hlocked : lock = .unlocked ↔ s.poll.holdsLock = false ∧ callback.holdsLock = false)
    (hexclusive : callback.holdsLock = true → s.poll.holdsLock = false)
    (hfound : ∀ {e}, callback ≠ .unlock e false)
    (hcontend : ∀ e, callback = .contend e → s.poll ≠ .idle) :
    Handed { s with lock := lock, callback := callback, now := s.now + 1 } := by
  refine { h.tick with
    locked := hlocked, exclusive := ?_, queued := fun _ => h.queued hbusy, found := hfound
    callback_past := ?_, covered := ?_ }
  · intro hpoll
    by_contra hheld
    have hnot := hexclusive (Bool.eq_true_of_not_eq_false hheld)
    rw [hpoll] at hnot
    cases hnot
  · intro e he
    exact h.tick.callback_past e (hevent ▸ he)
  · intro op e hop he hlt
    rcases he with hreturned | heq
    · exact h.covered hop (Or.inl hreturned) hlt
    · exact Or.inl (hcontend e heq)

/-- The callback returns, and its event is covered. -/
theorem callbackReturns (h : s.Handed) {lock : LockState} {e : Nat} {wakes : List Nat}
    (hevent : s.callback.event = some e)
    (hlocked : lock = .unlocked ↔ s.poll.holdsLock = false) (hwakes : ∀ w ∈ s.wakes, w ∈ wakes)
    (hcovered : ∀ op, s.operated = some op → op < e → s.poll ≠ .idle ∨ ∃ w ∈ wakes, op < w) :
    Handed { s with
      lock := lock, callback := .idle, returned := s.returned ++ [e], wakes := wakes
      now := s.now + 1 } := by
  refine { h.tick with
    locked := by simpa [HandoffCallback.holdsLock] using hlocked
    exclusive := fun _ => rfl, queued := fun hne => absurd rfl hne, found := nofun
    callback_past := nofun, returned_past := ?_, covered := ?_ }
  · intro e' he'
    rcases List.mem_append.mp he' with hold | hnew
    · exact Nat.lt_succ_of_lt (h.returned_past e' hold)
    · rw [List.mem_singleton.mp hnew]
      exact Nat.lt_succ_of_lt (h.callback_past e hevent)
  · intro op e' hop he' hlt
    rcases he' with hreturned | heq
    · rcases List.mem_append.mp hreturned with hold | hnew
      · rcases h.covered hop (Or.inl hold) hlt with hpoll | ⟨w, hw, hafter⟩
        · exact Or.inl hpoll
        · exact Or.inr ⟨w, hwakes w hw, hafter⟩
      · rw [List.mem_singleton.mp hnew] at hlt
        exact hcovered op hop hlt
    · cases heq

theorem stepCallback (h : s.Handed) (hstep : s.stepCallback = some s') :
    Handed { s' with now := s.now + 1 } := by
  have hlocked := h.locked
  cases hcallback : s.callback with
  | idle => simp [SocketHandoff.stepCallback, hcallback] at hstep
  | tryLock e =>
    rw [SocketHandoff.stepCallback, hcallback] at hstep
    rw [hcallback] at hlocked
    dsimp only at hstep
    split at hstep
    next hfree =>
      cases Option.some.inj hstep
      have hpoll := (hlocked.mp hfree).1
      exact h.callbackMoves (by rw [hcallback]; nofun) (by rw [hcallback]; rfl)
        (by simp [HandoffCallback.holdsLock]) (fun _ => hpoll) nofun nofun
    next hheld =>
      -- the lock is held by a poll, which has its operation still before it
      cases Option.some.inj hstep
      have hbusy : s.poll ≠ .idle := by
        intro hidle
        exact hheld (hlocked.mpr ⟨by rw [hidle]; rfl, rfl⟩)
      exact h.callbackMoves (by rw [hcallback]; nofun) (by rw [hcallback]; rfl) hlocked nofun nofun
        (fun _ _ => hbusy)
  | contend e =>
    rw [SocketHandoff.stepCallback, hcallback] at hstep
    rw [hcallback] at hlocked
    cases Option.some.inj hstep
    refine h.callbackReturns (by rw [hcallback]; rfl) ?_ (fun w hw => hw) ?_
    · rw [contend_unlocked, hlocked]
      simp [HandoffCallback.holdsLock]
    · intro op hop hlt
      exact h.covered hop (Or.inr hcallback) hlt
  | cloneWaker e =>
    rw [SocketHandoff.stepCallback, hcallback] at hstep
    have hpoll := h.poll_free (by rw [hcallback]; rfl)
    rw [hcallback] at hlocked
    cases Option.some.inj hstep
    have hwaker := h.waker (h.queued (by rw [hcallback]; nofun))
    refine h.callbackMoves (by rw [hcallback]; nofun) (by rw [hcallback]; rfl) hlocked
      (fun _ => hpoll) ?_ nofun
    rw [hwaker]
    exact nofun
  | unlock e found =>
    rw [SocketHandoff.stepCallback, hcallback] at hstep
    cases found with
    | false => exact absurd hcallback h.found
    | true =>
      cases Option.some.inj hstep
      have hpoll := h.poll_free (by rw [hcallback]; rfl)
      exact h.callbackMoves (by rw [hcallback]; nofun) (by rw [hcallback]; rfl)
        (by simp [hpoll, HandoffCallback.holdsLock]) nofun nofun nofun
  | wake e =>
    rw [SocketHandoff.stepCallback, hcallback] at hstep
    rw [hcallback] at hlocked
    cases Option.some.inj hstep
    refine h.callbackReturns (by rw [hcallback]; rfl) ?_ (fun w hw => List.mem_append_left _ hw) ?_
    · rw [hlocked]
      simp [HandoffCallback.holdsLock]
    · intro op hop _
      exact Or.inr ⟨s.now, List.mem_append_right _ (List.mem_singleton_self _),
        h.operated_past op hop⟩

theorem step {a : HandoffAction} (h : s.Handed) (hstep : s.step a = some s') : s'.Handed := by
  obtain ⟨s₁, hact, rfl⟩ := Option.map_eq_some_iff.mp hstep
  cases a with
  | event =>
    cases Option.some.inj hact
    exact h.event
  | consume =>
    cases Option.some.inj hact
    exact { h.tick with }
  | beginPoll =>
    obtain ⟨⟨hpoll, -⟩, ⟨⟩⟩ := Option.ite_none_right_eq_some.mp hact
    exact h.beginPoll hpoll
  | poll => exact h.stepPoll hact
  | attempt again => exact h.stepAttempt hact
  | notify i => exact h.stepNotify hact
  | callback => exact h.stepCallback hact

end Handed

/-- After a pending poll, once the callback for a later event has returned, the task was woken or is
on its way to try the operation again. -/
theorem covered_of_returned {ready : Bool} {as : List HandoffAction} {s : SocketHandoff}
    (hrun : run step (new ready) as = some s) {op e : Nat} (hop : s.operated = some op)
    (he : e ∈ s.returned) (hlt : op < e) : s.Covered op := by
  have h : s.Handed := run_invariant (fun h _ hstep => h.step hstep) (Handed.new ready)
    (guarded_of_forall (P := fun _ => True) (fun _ _ => trivial) _) hrun
  exact h.covered hop (Or.inl he) hlt

/-- A poll returns `Pending`; of two events the callback for the first wakes the task, and that for
the second finds the lock held by the next poll. -/
def contendedCallback : List HandoffAction :=
  [.beginPoll, .poll, .poll, .poll, .poll, .attempt true, .event, .event, .notify 0, .callback,
    .callback, .callback, .callback, .beginPoll, .poll, .notify 0, .callback, .callback]

theorem covered_of_contendedCallback :
    ∃ s, run step (new false) contendedCallback = some s ∧ s.operated = some 5 ∧
      s.returned = [6, 7] ∧ s.lock = .lockedContended ∧ s.Covered 5 := by
  have hrun : run step (new false) contendedCallback = some ⟨.lockedContended, true, true, true,
    .storeWaker, .idle, [], 18, false, some 5, [6, 7], [12]⟩ := by decide
  exact ⟨_, hrun, rfl, rfl, rfl, covered_of_returned hrun rfl (by decide : 7 ∈ [6, 7]) (by decide)⟩

end SocketHandoff

end Rko
