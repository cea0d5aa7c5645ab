import Rko.Errno
import Rko.GuardedRun

namespace Rko

open GuardedRun

/-- The operations that the async sockets wrap in a `SocketFuture`. -/
inductive SocketOp
  | accept | connect | read | write
deriving DecidableEq, Repr

def POLLIN : UInt32 := 0x1
def POLLOUT : UInt32 := 0x4
def EAGAIN : CInt := -11
def EALREADY : CInt := -114
def EINPROGRESS : CInt := -115

def checkErr (ret : CInt) : Except Error CInt :=
  if ret.msb then .error (Error.fromErrno ret) else .ok ret

namespace SocketOp

def mask : SocketOp → UInt32
  | accept => POLLIN
  | connect => POLLOUT
  | read => POLLIN
  | write => POLLOUT

/-- What the closure makes of the value that the kernel returned. -/
def result : SocketOp → CInt → Except Error CInt
  | connect, ret =>
    if ret = 0 then .ok 0
    else if ret = EINPROGRESS ∨ ret = EALREADY then .error (Error.fromErrno EAGAIN)
    else .error (Error.fromErrno ret)
  | _, ret => checkErr ret

/-- `SocketFuture::poll` returns `Pending` for this value. -/
def wouldBlock (op : SocketOp) (ret : CInt) : Bool :=
  match op.result ret with
  | .ok _ => false
  | .error e => e.toErrno = EAGAIN

end SocketOp

/-- The socket layer: what a call returns and leaves in a socket, `none` if it sleeps instead. A
call that would block goes on to, as long as nothing else happens to the socket. -/
structure SocketLayer (σ : Type) where
  call : SocketOp → σ → Option (CInt × σ)
  steady : ∀ op s ret s', call op s = some (ret, s') → op.wouldBlock ret = true →
    ∃ ret' s'', call op s' = some (ret', s'') ∧ op.wouldBlock ret' = true

/-- The ways in which the socket layer tells the wait queue of a change. -/
inductive Notification
  | dataReady | writeSpace | errorReport | stateChange
deriving DecidableEq, Repr

/-- The keys of `sock_def_readable`, `sk_stream_write_space`, `sock_def_error_report` and
`sock_def_wakeup`, which passes none. -/
def Notification.key : Notification → UInt32
  | dataReady => 0xC3
  | writeSpace => 0x304
  | errorReport => 0x8
  | stateChange => 0

inductive PollPhase
  | idle | lockWaker | storeWaker | register | attempt
deriving DecidableEq, Repr

inductive CallbackPhase
  | idle | lockWaker | cloneWaker | wake
deriving DecidableEq, Repr

/-- A `SocketFuture` with its socket. `notifications` are the changes the wait queue is still to be
told of, `woken` a wake after which the future was not polled yet, and `suspended` says that the
last poll returned `Pending`. -/
structure SocketFuture (σ : Type) where
  socket : σ
  notifications : List Notification
  allocated : Bool
  isQueued : Bool
  waker : Bool
  locked : Bool
  poll : PollPhase
  callback : CallbackPhase
  woken : Bool
  suspended : Bool
  finished : Bool
deriving DecidableEq, Repr

inductive SocketAction (σ : Type)
  | change (n : Notification) (socket : σ)
  | beginPoll
  | lockWaker
  | storeWaker
  | register
  | attempt
  | notify
  | callbackLock
  | callbackClone
  | callbackWake
deriving DecidableEq, Repr

namespace SocketFuture

variable {σ : Type} (layer : SocketLayer σ) (op : SocketOp)

def new (socket : σ) (allocated : Bool) : SocketFuture σ where
  socket := socket
  notifications := []
  allocated := allocated
  isQueued := false
  waker := false
  locked := false
  poll := .idle
  callback := .idle
  woken := false
  suspended := false
  finished := false

/-- Calling the operation now would return `EAGAIN`. -/
def again (socket : σ) : Bool :=
  match layer.call op socket with
  | some (ret, _) => op.wouldBlock ret
  | none => false

def step (s : SocketFuture σ) : SocketAction σ → Option (SocketFuture σ)
  | .change n socket => some { s with socket := socket, notifications := s.notifications ++ [n] }
  | .beginPoll =>
    if s.poll = .idle ∧ s.finished = false then
      if s.allocated then some { s with poll := .lockWaker, woken := false, suspended := false }
      else some { s with finished := true, suspended := false }
    else none
  | .lockWaker =>
    if s.poll = .lockWaker then
      if s.locked then some { s with poll := .register }
      else some { s with locked := true, poll := .storeWaker }
    else none
  | .storeWaker =>
    if s.poll = .storeWaker then
      some { s with waker := true, locked := false, poll := .register }
    else none
  | .register =>
    if s.poll = .register then some { s with isQueued := true, poll := .attempt } else none
  | .attempt =>
    if s.poll = .attempt then
      match layer.call op s.socket with
      | none => none
      | some (ret, socket) =>
        if op.wouldBlock ret then
          some { s with socket := socket, poll := .idle, suspended := true }
        else some { s with socket := socket, poll := .idle, finished := true }
    else none
  | .notify =>
    if s.callback = .idle then
      match s.notifications with
      | [] => none
      | n :: rest =>
        if s.isQueued ∧ n.key &&& op.mask ≠ 0 then
          some { s with notifications := rest, callback := .lockWaker }
        else some { s with notifications := rest }
    else none
  | .callbackLock =>
    if s.callback = .lockWaker then
      if s.locked then some { s with callback := .idle }
      else some { s with locked := true, callback := .cloneWaker }
    else none
  | .callbackClone =>
    if s.callback = .cloneWaker then
      if s.waker then some { s with locked := false, callback := .wake }
      else some { s with locked := false, callback := .idle }
    else none
  | .callbackWake =>
    if s.callback = .wake then some { s with callback := .idle, woken := true } else none

/-- Every change after which the operation no longer blocks is announced with a key that has a bit
of the mask. -/
def announced (_ : SocketFuture σ) : SocketAction σ → Bool
  | .change n socket => again layer op socket || n.key &&& op.mask != 0
  | _ => true

/-- Something is on its way that will wake the task. -/
def wakeComing (s : SocketFuture σ) : Prop :=
  s.woken = true ∨ s.callback ≠ .idle ∨ ∃ n ∈ s.notifications, n.key &&& op.mask ≠ 0

structure NoneMissed (s : SocketFuture σ) : Prop where
  locked : s.locked = true ↔ s.poll = .storeWaker ∨ s.callback = .cloneWaker
  exclusive : s.poll = .storeWaker → s.callback ≠ .cloneWaker
  queued_of_callback : s.callback ≠ .idle → s.isQueued = true
  waker_of_queued : s.isQueued = true → s.waker = true
  waker_of_register : s.poll = .register → s.waker = true
  queued_of_attempt : s.poll = .attempt → s.isQueued = true
  queued_of_suspended : s.suspended = true → s.isQueued = true ∧ s.poll = .idle
  suspended : s.suspended = true → again layer op s.socket = true ∨ wakeComing op s

variable {layer op}

theorem NoneMissed.new (socket : σ) (allocated : Bool) :
    NoneMissed layer op (new socket allocated) := by
  constructor <;> simp [SocketFuture.new]

theorem again_of_call {socket socket' : σ} {ret : CInt}
    (hcall : layer.call op socket = some (ret, socket')) (hblock : op.wouldBlock ret = true) :
    again layer op socket' = true := by
  obtain ⟨ret', socket'', hcall', hblock'⟩ := layer.steady op socket ret socket' hcall hblock
  rw [again, hcall']
  exact hblock'

section Steps

variable {s : SocketFuture σ}

theorem NoneMissed.not_suspended (hs : NoneMissed layer op s) (hpoll : s.poll ≠ .idle) :
    ¬ s.suspended = true :=
  fun hsuspended => hpoll (hs.queued_of_suspended hsuspended).2

theorem NoneMissed.change (hs : NoneMissed layer op s) {n : Notification} {socket : σ}
    (hguard : again layer op socket = true ∨ n.key &&& op.mask ≠ 0) :
    NoneMissed layer op { s with socket := socket, notifications := s.notifications ++ [n] } := by
  refine { hs with suspended := fun _ => ?_ }
  rcases hguard with hagain | hkey
  · exact Or.inl hagain
  · exact Or.inr (Or.inr (Or.inr ⟨n, List.mem_append_right _ (List.mem_singleton_self n), hkey⟩))

/-- Steps of a poll outside the lock leave it to the callback. -/
theorem NoneMissed.locked_of_poll (hs : NoneMissed layer op s) (hpoll : s.poll ≠ .storeWaker)
    {poll : PollPhase} (hpoll' : poll ≠ .storeWaker) :
    s.locked = true ↔ poll = .storeWaker ∨ s.callback = .cloneWaker :=
  (hs.locked.trans (or_iff_right hpoll)).trans (or_iff_right hpoll').symm

/-- Steps of the callback outside the lock leave it to the poll. -/
theorem NoneMissed.locked_of_callback (hs : NoneMissed layer op s)
    (hcallback : s.callback ≠ .cloneWaker) {callback : CallbackPhase}
    (hcallback' : callback ≠ .cloneWaker) :
    s.locked = true ↔ s.poll = .storeWaker ∨ callback = .cloneWaker :=
  (hs.locked.trans (or_iff_left hcallback)).trans (or_iff_left hcallback').symm

/-- During a poll the future is not suspended, so nothing needs to be on its way. -/
theorem NoneMissed.pollMoves (hs : NoneMissed layer op s) (hbusy : s.poll ≠ .idle)
    {locked waker isQueued : Bool} {poll : PollPhase}
    (hlocked : locked = true ↔ poll = .storeWaker ∨ s.callback = .cloneWaker)
    (hexclusive : poll = .storeWaker → s.callback ≠ .cloneWaker)
    (hqueued : s.isQueued = true → isQueued = true) (hwaker : isQueued = true → waker = true)
    (hregister : poll = .register → waker = true)
    (hattempt : poll = .attempt → isQueued = true) :
    NoneMissed layer op
      { s with locked := locked, waker := waker, isQueued := isQueued, poll := poll } := by
  have hnot := hs.not_suspended hbusy
  exact
    { locked := hlocked
      exclusive := hexclusive
      queued_of_callback := fun hne => hqueued (hs.queued_of_callback hne)
      waker_of_queued := hwaker
      waker_of_register := hregister
      queued_of_attempt := hattempt
      queued_of_suspended := fun hsuspended => absurd hsuspended hnot
      suspended := fun hsuspended => absurd hsuspended hnot }

theorem NoneMissed.beginPoll (hs : NoneMissed layer op s) (hpoll : s.poll = .idle) :
    NoneMissed layer op { s with poll := .lockWaker, woken := false, suspended := false } :=
  { hs with
    locked := hs.locked_of_poll (by rw [hpoll]; nofun) nofun
    exclusive := nofun
    waker_of_register := nofun
    queued_of_attempt := nofun
    queued_of_suspended := nofun
    suspended := nofun }

/-- The lock is held by a callback, so that an earlier poll has stored the waker. -/
theorem NoneMissed.lockWaker_held (hs : NoneMissed layer op s) (hpoll : s.poll = .lockWaker)
    (hheld : s.locked = true) : NoneMissed layer op { s with poll := .register } := by
  have hfree : s.poll ≠ .storeWaker := by
    rw [hpoll]
    nofun
  have hclone : s.callback = .cloneWaker := (hs.locked.mp hheld).resolve_left hfree
  have hwaker := hs.waker_of_queued (hs.queued_of_callback (by rw [hclone]; nofun))
  exact hs.pollMoves (by rw [hpoll]; nofun) (hs.locked_of_poll hfree nofun) nofun id
    hs.waker_of_queued (fun _ => hwaker) nofun

theorem NoneMissed.lockWaker_free (hs : NoneMissed layer op s) (hpoll : s.poll = .lockWaker)
    (hfree : s.locked = false) :
    NoneMissed layer op { s with locked := true, poll := .storeWaker } := by
  have hclone : s.callback ≠ .cloneWaker := by
    intro hclone
    have hheld := hs.locked.mpr (Or.inr hclone)
    rw [hfree] at hheld
    cases hheld
  exact hs.pollMoves (by rw [hpoll]; nofun) (iff_of_true rfl (Or.inl rfl)) (fun _ => hclone) id
    hs.waker_of_queued nofun nofun

theorem NoneMissed.storeWaker (hs : NoneMissed layer op s) (hpoll : s.poll = .storeWaker) :
    NoneMissed layer op { s with waker := true, locked := false, poll := .register } := by
  have hclone := hs.exclusive hpoll
  have hnone : ¬ (PollPhase.register = .storeWaker ∨ s.callback = .cloneWaker) := by
    rw [not_or]
    exact ⟨nofun, hclone⟩
  exact hs.pollMoves (by rw [hpoll]; nofun) (iff_of_false nofun hnone) nofun id (fun _ => rfl)
    (fun _ => rfl) nofun

theorem NoneMissed.register (hs : NoneMissed layer op s) (hpoll : s.poll = .register) :
    NoneMissed layer op { s with isQueued := true, poll := .attempt } := by
  have hwaker := hs.waker_of_register hpoll
  exact hs.pollMoves (by rw [hpoll]; nofun) (hs.locked_of_poll (by rw [hpoll]; nofun) nofun) nofun
    (fun _ => rfl) (fun _ => hwaker) nofun (fun _ => rfl)

/-- The operation still blocks when the future is suspended, so nothing was missed up to here. -/
theorem NoneMissed.attempt_again (hs : NoneMissed layer op s) (hpoll : s.poll = .attempt)
    {socket : σ} (hagain : again layer op socket = true) :
    NoneMissed layer op { s with socket := socket, poll := .idle, suspended := true } := by
  have hqueued := hs.queued_of_attempt hpoll
  exact
    { hs with
      locked := hs.locked_of_poll (by rw [hpoll]; nofun) nofun
      exclusive := nofun
      waker_of_register := nofun
      queued_of_attempt := nofun
      queued_of_suspended := fun _ => ⟨hqueued, rfl⟩
      suspended := fun _ => Or.inl hagain }

theorem NoneMissed.attempt_done (hs : NoneMissed layer op s) (hpoll : s.poll = .attempt)
    (socket : σ) :
    NoneMissed layer op { s with socket := socket, poll := .idle, finished := true } := by
  have hnot := hs.not_suspended (by rw [hpoll]; nofun)
  exact
    { hs with
      locked := hs.locked_of_poll (by rw [hpoll]; nofun) nofun
      exclusive := nofun
      waker_of_register := nofun
      queued_of_attempt := nofun
      queued_of_suspended := fun hsuspended => absurd hsuspended hnot
      suspended := fun hsuspended => absurd hsuspended hnot }

/-- As long as the callback is at work it will wake the task, whatever it takes off the list. -/
theorem NoneMissed.callbackMoves (hs : NoneMissed layer op s) (hqueued : s.isQueued = true)
    (locked : Bool) (callback : CallbackPhase) (hbusy : callback ≠ .idle)
    (hlocked : locked = true ↔ s.poll = .storeWaker ∨ callback = .cloneWaker)
    (hexclusive : s.poll = .storeWaker → callback ≠ .cloneWaker) (rest : List Notification) :
    NoneMissed layer op { s with notifications := rest, locked := locked, callback := callback } :=
  { hs with
    locked := hlocked
    exclusive := hexclusive
    queued_of_callback := fun _ => hqueued
    suspended := fun _ => Or.inr (Or.inr (Or.inl hbusy)) }

theorem NoneMissed.notify_matching (hs : NoneMissed layer op s) (hidle : s.callback = .idle)
    (hqueued : s.isQueued = true) (rest : List Notification) :
    NoneMissed layer op { s with notifications := rest, callback := .lockWaker } :=
  hs.callbackMoves hqueued s.locked .lockWaker nofun
    (hs.locked_of_callback (by rw [hidle]; nofun) nofun) (fun _ => nofun) rest

/-- A suspended future is on the wait queue, so the callback passed over this notification because
of its key. -/
theorem NoneMissed.notify_other (hs : NoneMissed layer op s) {n : Notification}
    {rest : List Notification} (hnotifications : s.notifications = n :: rest)
    (hother : ¬ (s.isQueued = true ∧ n.key &&& op.mask ≠ 0)) :
    NoneMissed layer op { s with notifications := rest } := by
  refine { hs with suspended := fun hsuspended => ?_ }
  have hkey : n.key &&& op.mask = 0 := by
    by_contra hkey
    exact hother ⟨(hs.queued_of_suspended hsuspended).1, hkey⟩
  rcases hs.suspended hsuspended with hagain | hwoken | hcallback | ⟨m, hm, hmatch⟩
  · exact Or.inl hagain
  · exact Or.inr (Or.inl hwoken)
  · exact Or.inr (Or.inr (Or.inl hcallback))
  · rw [hnotifications] at hm
    rcases List.mem_cons.mp hm with rfl | hm
    · exact absurd hkey hmatch
    · exact Or.inr (Or.inr (Or.inr ⟨m, hm, hmatch⟩))

/-- The callback finds the lock taken only by a poll, which will try the operation after it. -/
theorem NoneMissed.callbackLock_held (hs : NoneMissed layer op s)
    (hcallback : s.callback = .lockWaker) (hheld : s.locked = true) :
    NoneMissed layer op { s with callback := .idle } := by
  have hfree : s.callback ≠ .cloneWaker := by
    rw [hcallback]
    nofun
  have hstore : s.poll = .storeWaker := (hs.locked.mp hheld).resolve_right hfree
  have hnot := hs.not_suspended (by rw [hstore]; nofun)
  exact
    { hs with
      locked := hs.locked_of_callback hfree nofun
      exclusive := fun _ => nofun
      queued_of_callback := fun hne => absurd rfl hne
      suspended := fun hsuspended => absurd hsuspended hnot }

theorem NoneMissed.callbackLock_free (hs : NoneMissed layer op s)
    (hcallback : s.callback = .lockWaker) (hfree : s.locked = false) :
    NoneMissed layer op { s with locked := true, callback := .cloneWaker } := by
  have hqueued := hs.queued_of_callback (by rw [hcallback]; nofun)
  have hpoll : s.poll ≠ .storeWaker := by
    intro hstore
    have hheld := hs.locked.mpr (Or.inl hstore)
    rw [hfree] at hheld
    cases hheld
  exact hs.callbackMoves hqueued true .cloneWaker nofun (iff_of_true rfl (Or.inr rfl))
    (fun hstore => absurd hstore hpoll) s.notifications

theorem NoneMissed.callbackClone (hs : NoneMissed layer op s)
    (hcallback : s.callback = .cloneWaker) :
    NoneMissed layer op { s with locked := false, callback := .wake } := by
  have hqueued := hs.queued_of_callback (by rw [hcallback]; nofun)
  have hnone : ¬ (s.poll = .storeWaker ∨ CallbackPhase.wake = .cloneWaker) := by
    rw [not_or]
    exact ⟨fun hstore => hs.exclusive hstore hcallback, nofun⟩
  exact hs.callbackMoves hqueued false .wake nofun (iff_of_false nofun hnone) (fun _ => nofun)
    s.notifications

theorem NoneMissed.callbackWake (hs : NoneMissed layer op s) (hcallback : s.callback = .wake) :
    NoneMissed layer op { s with callback := .idle, woken := true } :=
  { hs with
    locked := hs.locked_of_callback (by rw [hcallback]; nofun) nofun
    exclusive := fun _ => nofun
    queued_of_callback := fun hne => absurd rfl hne
    suspended := fun _ => Or.inr (Or.inl rfl) }

theorem NoneMissed.step {s' : SocketFuture σ} {a : SocketAction σ} (hs : NoneMissed layer op s)
    (hguard : announced layer op s a = true) (h : step layer op s a = some s') :
    NoneMissed layer op s' := by
  cases a with
  | change n socket =>
    cases Option.some.inj h
    exact hs.change (by simpa [announced] using hguard)
  | beginPoll =>
    obtain ⟨⟨hpoll, -⟩, h⟩ := Option.ite_none_right_eq_some.mp h
    split at h
    next =>
      cases Option.some.inj h
      exact hs.beginPoll hpoll
    next =>
      cases Option.some.inj h
      exact { hs with queued_of_suspended := nofun, suspended := nofun }
  | lockWaker =>
    obtain ⟨hpoll, h⟩ := Option.ite_none_right_eq_some.mp h
    split at h
    next hheld =>
      cases Option.some.inj h
      exact hs.lockWaker_held hpoll hheld
    next hfree =>
      cases Option.some.inj h
      exact hs.lockWaker_free hpoll (Bool.eq_false_of_not_eq_true hfree)
  | storeWaker =>
    obtain ⟨hpoll, ⟨⟩⟩ := Option.ite_none_right_eq_some.mp h
    exact hs.storeWaker hpoll
  | register =>
    obtain ⟨hpoll, ⟨⟩⟩ := Option.ite_none_right_eq_some.mp h
    exact hs.register hpoll
  | attempt =>
    obtain ⟨hpoll, h⟩ := Option.ite_none_right_eq_some.mp h
    cases hcall : layer.call op s.socket with
    | none =>
      rw [hcall] at h
      cases h
    | some reply =>
      rw [hcall] at h
      dsimp only at h
      split at h
      next hblock =>
        cases Option.some.inj h
        exact hs.attempt_again hpoll (again_of_call hcall hblock)
      next =>
        cases Option.some.inj h
        exact hs.attempt_done hpoll reply.2
  | notify =>
    obtain ⟨hidle, h⟩ := Option.ite_none_right_eq_some.mp h
    cases hnotifications : s.notifications with
    | nil =>
      rw [hnotifications] at h
      cases h
    | cons n rest =>
      rw [hnotifications] at h
      dsimp only at h
      split at h
      next hmatch =>
        cases Option.some.inj h
        exact hs.notify_matching hidle hmatch.1 rest
      next hother =>
        cases Option.some.inj h
        exact hs.notify_other hnotifications hother
  | callbackLock =>
    obtain ⟨hcallback, h⟩ := Option.ite_none_right_eq_some.mp h
    split at h
    next hheld =>
      cases Option.some.inj h
      exact hs.callbackLock_held hcallback hheld
    next hfree =>
      cases Option.some.inj h
      exact hs.callbackLock_free hcallback (Bool.eq_false_of_not_eq_true hfree)
  | callbackClone =>
    obtain ⟨hcallback, h⟩ := Option.ite_none_right_eq_some.mp h
    have hwaker := hs.waker_of_queued (hs.queued_of_callback (by rw [hcallback]; decide))
    rw [if_pos hwaker] at h
    cases Option.some.inj h
    exact hs.callbackClone hcallback
  | callbackWake =>
    obtain ⟨hcallback, ⟨⟩⟩ := Option.ite_none_right_eq_some.mp h
    exact hs.callbackWake hcallback

end Steps

/-- If each change that lets the operation proceed is announced with a bit of the mask, a future
stays suspended only on a socket on which the operation still blocks. -/
theorem again_of_suspended {socket : σ} {allocated : Bool} {as : List (SocketAction σ)}
    {s : SocketFuture σ}
    (hguard : Guarded (step layer op) (fun s a => announced layer op s a = true)
      (SocketFuture.new socket allocated) as)
    (hrun : run (step layer op) (SocketFuture.new socket allocated) as = some s)
    (_ : s.poll = .idle) (hcallback : s.callback = .idle) (hnotifications : s.notifications = [])
    (hwoken : s.woken = false) (hsuspended : s.suspended = true) :
    again layer op s.socket = true := by
  have hs : NoneMissed layer op s :=
    run_invariant (fun hs hguard h => hs.step hguard h) (NoneMissed.new socket allocated) hguard hrun
  rcases hs.suspended hsuspended with hagain | hwake | hbusy | ⟨n, hn, -⟩
  · exact hagain
  · rw [hwoken] at hwake
    cases hwake
  · exact absurd hcallback hbusy
  · rw [hnotifications] at hn
    cases hn

/-- The states of a connecting socket. -/
inductive Handshake
  | fresh | connecting | established
deriving DecidableEq, Repr

def handshake : SocketLayer Handshake where
  call
    | .connect, .fresh => some (EINPROGRESS, .connecting)
    | .connect, .connecting => some (EALREADY, .connecting)
    | .connect, .established => some (0, .established)
    | .accept, s => some (-22, s)
    | .read, .established => none
    | .write, .established => none
    | .read, s => some (-107, s)
    | .write, s => some (-107, s)
  steady := by
    intro op s ret s' hcall hblock
    cases op <;> cases s <;> cases hcall <;>
      first
      | exact absurd hblock (by decide)
      | exact ⟨EALREADY, .connecting, rfl, by decide⟩

/-- The steps of a poll that finds the lock free. -/
def pollSteps : List (SocketAction Handshake) :=
  [.beginPoll, .lockWaker, .storeWaker, .register, .attempt]

def pollTwice : List (SocketAction Handshake) :=
  pollSteps ++ [.change .writeSpace .connecting, .notify, .callbackLock, .callbackClone,
    .callbackWake] ++ pollSteps

theorem again_after_pollTwice :
    ∃ s, run (step handshake .connect) (SocketFuture.new .fresh true) pollTwice = some s ∧
      s.suspended = true ∧ again handshake .connect s.socket = true := by
  have hguard : Guarded (step handshake .connect) (fun s a => announced handshake .connect s a = true)
      (SocketFuture.new .fresh true) pollTwice := by decide
  exact ⟨_, rfl, rfl, again_of_suspended hguard rfl rfl rfl rfl rfl rfl⟩

/-- The null key that announces a completed connect has no bit of `POLLOUT`: the callback returns
without waking the task, while `connect` would now return `0`. -/
theorem connect_completion_missed :
    ∃ s, run (step handshake .connect) (SocketFuture.new .fresh true)
        (pollSteps ++ [.change .stateChange .established, .notify]) = some s ∧
      s.poll = .idle ∧ s.callback = .idle ∧ s.notifications = [] ∧ s.woken = false ∧
      s.suspended = true ∧ ¬ again handshake .connect s.socket = true ∧
      handshake.call .connect s.socket = some (0, .established) :=
  ⟨_, rfl, by decide⟩

end SocketFuture

end Rko
