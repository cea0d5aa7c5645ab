import Rko.Errno

namespace Rko

/-- Where an `Arc` of a task is held: by `spawn_inner` as `task_arc` and `revocable`, in the
executor's list (or the list `stop` took), by a caller of `spawn`, by a waker, by a call of `wake`
before and after the enqueue, by `run` as `this` and as the waker it made. -/
inductive Role
  | taskArc | revocable | entry | caller | waker | waking | rejected | this | localWaker
deriving DecidableEq, Repr

/-- Where the callback of the work item is; `polled` and `unguarded` say whether the poll returned
`Ready`. -/
inductive RunPhase
  | idle | started | accessed | polling | polled (ready : Bool) | unguarded (ready : Bool)
  | leaving | closing
deriving DecidableEq, Repr

inductive SpawnPhase
  | allocated | cloned | registered | spawned | failed
deriving DecidableEq, Repr

/-- A task. `refs` is the count of its `Arc`, `handles` lists the handles there are, and `freed` and
`futureDrops` count how often its memory was freed and its future dropped. The usage count of
`AsyncRevocable` is split into its flag and its number of guards. -/
structure Task where
  refs : CInt
  handles : List Role
  freed : Nat
  pending : Bool
  run : RunPhase
  spawn : SpawnPhase
  revoked : Bool
  guards : Nat
  futureDrops : Nat
deriving DecidableEq, Repr

inductive TaskAction
  | cloneRevocable
  | register (stopped alloc : Bool)
  | enqueue (r : Role)
  | returnHandle
  | clone (r r' : Role)
  | drop (r : Role)
  | wake
  | revoke (r : Role)
  | flush (r : Role)
  | start
  | tryAccess
  | makeWaker
  | poll (ready : Bool)
  | dropGuard
  | afterPoll
  | dropLocalWaker
  | finish
deriving DecidableEq, Repr

namespace Task

def new : Task := ⟨1, [.taskArc], 0, false, .idle, .allocated, false, 0, 0⟩

def addHandle (t : Task) (r : Role) : Task :=
  { t with refs := t.refs + 1, handles := r :: t.handles }

/-- A handle changes hands, which does not touch the count. -/
def passHandle (t : Task) (r r' : Role) : Task := { t with handles := r' :: t.handles.erase r }

/-- `Arc::drop`: the last one frees the task, and its future with it unless that was revoked. -/
def dropHandle (t : Task) (r : Role) : Task :=
  { t with
    refs := t.refs - 1
    handles := t.handles.erase r
    freed := if t.refs = 1 then t.freed + 1 else t.freed
    futureDrops := if t.refs = 1 ∧ t.revoked = false then t.futureDrops + 1 else t.futureDrops }

/-- `__enqueue`: the workqueue takes the handle unless the item is pending already. -/
def enqueueHandle (t : Task) (r : Role) : Task :=
  if t.pending then t.passHandle r .rejected
  else { t with pending := true, handles := t.handles.erase r }

def revokeFuture (t : Task) : Task :=
  if t.revoked then t
  else { t with
    revoked := true
    futureDrops := if t.guards = 0 then t.futureDrops + 1 else t.futureDrops }

def dropFutureGuard (t : Task) : Task :=
  { t with
    guards := t.guards - 1
    futureDrops := if t.revoked ∧ t.guards = 1 then t.futureDrops + 1 else t.futureDrops }

/-- Which clones there are: callers clone their handle, wakers are cloned and woken by reference,
and the poll does both with the waker it was given. -/
def mayClone (t : Task) : Role → Role → Bool
  | .caller, .caller => true
  | .waker, .waker => true
  | .waker, .waking => true
  | .localWaker, .waker => decide (t.run = .polling)
  | .localWaker, .waking => decide (t.run = .polling)
  | _, _ => false

/-- Which handles may be dropped: those of `spawn_inner` only when it fails. -/
def mayDrop (t : Task) : Role → Bool
  | .caller => true
  | .waker => true
  | .rejected => true
  | .entry => true
  | .taskArc => decide (t.spawn = .failed)
  | .revocable => decide (t.spawn = .failed)
  | _ => false

def mayCancel : Role → Bool
  | .caller => true
  | .entry => true
  | _ => false

/-- One atomic step on the task, if it is possible. The workqueue runs the item only when it is not
running; `cancel_work_sync` returns when it is neither running nor pending. -/
def step (t : Task) : TaskAction → Option Task
  | .cloneRevocable =>
    if t.spawn = .allocated ∧ .taskArc ∈ t.handles then
      some { t.addHandle .revocable with spawn := .cloned }
    else none
  | .register stopped alloc =>
    if t.spawn ≠ .cloned ∨ .revocable ∉ t.handles then none
    else if stopped then some { t.revokeFuture with spawn := .failed }
    else if alloc then some { t.addHandle .entry with spawn := .registered }
    else some { t with spawn := .failed }
  | .enqueue r =>
    if r ∉ t.handles then none
    else match r with
      | .taskArc => if t.spawn = .registered then some (t.enqueueHandle .taskArc) else none
      | .waking => some (t.enqueueHandle .waking)
      | _ => none
  | .returnHandle =>
    if t.spawn = .registered ∧ .taskArc ∉ t.handles ∧ .revocable ∈ t.handles then
      some { t.passHandle .revocable .caller with spawn := .spawned }
    else none
  | .clone r r' => if r ∈ t.handles ∧ t.mayClone r r' then some (t.addHandle r') else none
  | .drop r => if r ∈ t.handles ∧ t.mayDrop r then some (t.dropHandle r) else none
  | .wake => if .waker ∈ t.handles then some (t.passHandle .waker .waking) else none
  | .revoke r => if r ∈ t.handles ∧ mayCancel r then some t.revokeFuture else none
  | .flush r =>
    if r ∈ t.handles ∧ mayCancel r ∧ t.run = .idle then some { t with pending := false } else none
  | .start =>
    if t.pending ∧ t.run = .idle then
      some { t with pending := false, run := .started, handles := .this :: t.handles }
    else none
  | .tryAccess =>
    if t.run ≠ .started then none
    else if t.revoked then some { t with run := .closing }
    else some { t with run := .accessed, guards := t.guards + 1 }
  | .makeWaker =>
    if t.run = .accessed ∧ .this ∈ t.handles then
      some { t.addHandle .localWaker with run := .polling }
    else none
  | .poll ready => if t.run = .polling then some { t with run := .polled ready } else none
  | .dropGuard =>
    match t.run with
    | .polled ready => some { t.dropFutureGuard with run := .unguarded ready }
    | _ => none
  | .afterPoll =>
    match t.run with
    | .unguarded true => some { t.revokeFuture with run := .leaving }
    | .unguarded false => some { t with run := .leaving }
    | _ => none
  | .dropLocalWaker =>
    if t.run = .leaving ∧ .localWaker ∈ t.handles then
      some { t.dropHandle .localWaker with run := .closing }
    else none
  | .finish =>
    if t.run = .closing ∧ .this ∈ t.handles then some { t.dropHandle .this with run := .idle }
    else none

/-- Everything a step can do, with what holds when it is taken. -/
inductive Transition (t : Task) : TaskAction → Task → Prop
  | cloneRevocable (hspawn : t.spawn = .allocated) (hmem : .taskArc ∈ t.handles) :
    Transition t .cloneRevocable { t.addHandle .revocable with spawn := .cloned }
  | refuse (alloc : Bool) (hspawn : t.spawn = .cloned) :
    Transition t (.register true alloc) { t.revokeFuture with spawn := .failed }
  | register (hspawn : t.spawn = .cloned) (hmem : .revocable ∈ t.handles) :
    Transition t (.register false true) { t.addHandle .entry with spawn := .registered }
  | unlisted (hspawn : t.spawn = .cloned) :
    Transition t (.register false false) { t with spawn := .failed }
  | enqueue {r : Role} (hmem : r ∈ t.handles)
      (hrole : r = .taskArc ∧ t.spawn = .registered ∨ r = .waking) :
    Transition t (.enqueue r) (t.enqueueHandle r)
  | returnHandle (hspawn : t.spawn = .registered) (hmem : .revocable ∈ t.handles) :
    Transition t .returnHandle { t.passHandle .revocable .caller with spawn := .spawned }
  | clone {r r' : Role} (hmem : r ∈ t.handles) (hmay : t.mayClone r r' = true) :
    Transition t (.clone r r') (t.addHandle r')
  | drop {r : Role} (hmem : r ∈ t.handles) : Transition t (.drop r) (t.dropHandle r)
  | wake (hmem : .waker ∈ t.handles) : Transition t .wake (t.passHandle .waker .waking)
  | revoke (r : Role) : Transition t (.revoke r) t.revokeFuture
  | flush (r : Role) (hrun : t.run = .idle) : Transition t (.flush r) { t with pending := false }
  | start (hpending : t.pending = true) :
    Transition t .start
      { t with pending := false, run := .started, handles := .this :: t.handles }
  | refused (hrun : t.run = .started) (hrevoked : t.revoked = true) :
    Transition t .tryAccess { t with run := .closing }
  | tryAccess (hrun : t.run = .started) (hrevoked : t.revoked = false) :
    Transition t .tryAccess { t with run := .accessed, guards := t.guards + 1 }
  | makeWaker (hrun : t.run = .accessed) (hmem : .this ∈ t.handles) :
    Transition t .makeWaker { t.addHandle .localWaker with run := .polling }
  | poll (ready : Bool) (hrun : t.run = .polling) :
    Transition t (.poll ready) { t with run := .polled ready }
  | dropGuard {ready : Bool} (hrun : t.run = .polled ready) :
    Transition t .dropGuard { t.dropFutureGuard with run := .unguarded ready }
  | complete (hrun : t.run = .unguarded true) :
    Transition t .afterPoll { t.revokeFuture with run := .leaving }
  | suspend (hrun : t.run = .unguarded false) :
    Transition t .afterPoll { t with run := .leaving }
  | dropLocalWaker (hrun : t.run = .leaving) (hmem : .localWaker ∈ t.handles) :
    Transition t .dropLocalWaker { t.dropHandle .localWaker with run := .closing }
  | finish (hrun : t.run = .closing) (hmem : .this ∈ t.handles) :
    Transition t .finish { t.dropHandle .this with run := .idle }

@[simp]
theorem refs_revokeFuture (t : Task) : t.revokeFuture.refs = t.refs := by
  unfold revokeFuture
  split <;> rfl

@[simp]
theorem freed_revokeFuture (t : Task) : t.revokeFuture.freed = t.freed := by
  unfold revokeFuture
  split <;> rfl

@[simp]
theorem pending_revokeFuture (t : Task) : t.revokeFuture.pending = t.pending := by
  unfold revokeFuture
  split <;> rfl

@[simp]
theorem run_revokeFuture (t : Task) : t.revokeFuture.run = t.run := by
  unfold revokeFuture
  split <;> rfl

@[simp]
theorem handles_revokeFuture (t : Task) : t.revokeFuture.handles = t.handles := by
  unfold revokeFuture
  split <;> rfl

@[simp]
theorem spawn_revokeFuture (t : Task) : t.revokeFuture.spawn = t.spawn := by
  unfold revokeFuture
  split <;> rfl

@[simp]
theorem spawn_enqueueHandle (t : Task) (r : Role) : (t.enqueueHandle r).spawn = t.spawn := by
  unfold enqueueHandle
  split <;> rfl

variable {t t' : Task} {a : TaskAction}

theorem transition_of_register {stopped alloc : Bool} (h : t.step (.register stopped alloc) = some t') :
    Transition t (.register stopped alloc) t' := by
  simp only [step] at h
  split at h
  · cases h
  next hcond =>
    rw [not_or, not_not, not_not] at hcond
    cases stopped with
    | true =>
      cases Option.some.inj h
      exact .refuse alloc hcond.1
    | false =>
      cases alloc with
      | true =>
        cases Option.some.inj h
        exact .register hcond.1 hcond.2
      | false =>
        cases Option.some.inj h
        exact .unlisted hcond.1

theorem transition_of_enqueue {r : Role} (h : t.step (.enqueue r) = some t') :
    Transition t (.enqueue r) t' := by
  simp only [step] at h
  split at h
  · cases h
  next hmem =>
    rw [not_not] at hmem
    cases r with
    | taskArc =>
      obtain ⟨hspawn, ⟨⟩⟩ := Option.ite_none_right_eq_some.mp h
      exact .enqueue hmem (Or.inl ⟨rfl, hspawn⟩)
    | waking =>
      cases Option.some.inj h
      exact .enqueue hmem (Or.inr rfl)
    | _ => cases h

theorem transition_of_tryAccess (h : t.step .tryAccess = some t') :
    Transition t .tryAccess t' := by
  simp only [step] at h
  split at h
  · cases h
  next hrun =>
    rw [not_not] at hrun
    split at h
    next hrevoked =>
      cases Option.some.inj h
      exact .refused hrun hrevoked
    next hrevoked =>
      cases Option.some.inj h
      exact .tryAccess hrun (Bool.eq_false_iff.mpr hrevoked)

theorem transition_of_dropGuard (h : t.step .dropGuard = some t') :
    Transition t .dropGuard t' := by
  cases hrun : t.run with
  | polled ready =>
    rw [step, hrun] at h
    cases Option.some.inj h
    exact .dropGuard hrun
  | _ =>
    rw [step, hrun] at h
    cases h

theorem transition_of_afterPoll (h : t.step .afterPoll = some t') :
    Transition t .afterPoll t' := by
  cases hrun : t.run with
  | unguarded ready =>
    rw [step, hrun] at h
    cases ready with
    | true =>
      cases Option.some.inj h
      exact .complete hrun
    | false =>
      cases Option.some.inj h
      exact .suspend hrun
  | _ =>
    rw [step, hrun] at h
    cases h

theorem transition_of_step (h : t.step a = some t') : Transition t a t' := by
  cases a with
  | register stopped alloc => exact transition_of_register h
  | enqueue r => exact transition_of_enqueue h
  | tryAccess => exact transition_of_tryAccess h
  | dropGuard => exact transition_of_dropGuard h
  | afterPoll => exact transition_of_afterPoll h
  | cloneRevocable =>
    obtain ⟨hcond, ⟨⟩⟩ := Option.ite_none_right_eq_some.mp h
    exact .cloneRevocable hcond.1 hcond.2
  | returnHandle =>
    obtain ⟨hcond, ⟨⟩⟩ := Option.ite_none_right_eq_some.mp h
    exact .returnHandle hcond.1 hcond.2.2
  | clone r r' =>
    obtain ⟨hcond, ⟨⟩⟩ := Option.ite_none_right_eq_some.mp h
    exact .clone hcond.1 hcond.2
  | drop r =>
    obtain ⟨hcond, ⟨⟩⟩ := Option.ite_none_right_eq_some.mp h
    exact .drop hcond.1
  | wake =>
    obtain ⟨hmem, ⟨⟩⟩ := Option.ite_none_right_eq_some.mp h
    exact .wake hmem
  | revoke r =>
    obtain ⟨hcond, ⟨⟩⟩ := Option.ite_none_right_eq_some.mp h
    exact .revoke r
  | flush r =>
    obtain ⟨hcond, ⟨⟩⟩ := Option.ite_none_right_eq_some.mp h
    exact .flush r hcond.2.2
  | start =>
    obtain ⟨hcond, ⟨⟩⟩ := Option.ite_none_right_eq_some.mp h
    exact .start hcond.1
  | makeWaker =>
    obtain ⟨hcond, ⟨⟩⟩ := Option.ite_none_right_eq_some.mp h
    exact .makeWaker hcond.1 hcond.2
  | poll ready =>
    obtain ⟨hrun, ⟨⟩⟩ := Option.ite_none_right_eq_some.mp h
    exact .poll ready hrun
  | dropLocalWaker =>
    obtain ⟨hcond, ⟨⟩⟩ := Option.ite_none_right_eq_some.mp h
    exact .dropLocalWaker hcond.1 hcond.2
  | finish =>
    obtain ⟨hcond, ⟨⟩⟩ := Option.ite_none_right_eq_some.mp h
    exact .finish hcond.1 hcond.2

end Task

end Rko
