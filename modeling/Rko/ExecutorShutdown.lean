import Rko.Executor

namespace Rko

open GuardedRun CallPool

namespace Task

def Active (t : Task) : Prop := t.pending = true ∨ t.run ≠ .idle

instance (t : Task) : Decidable t.Active :=
  inferInstanceAs (Decidable (t.pending = true ∨ t.run ≠ .idle))

/-- `spawn_inner` has put the task in the list. -/
def isRegistered (t : Task) : Bool :=
  match t.spawn with
  | .registered => true
  | .spawned => true
  | _ => false

/-- The work item is active, or there is something besides `spawn_inner` that can enqueue it. -/
def Wakeable (t : Task) : Prop := t.Active ∨ .waker ∈ t.handles ∨ .waking ∈ t.handles

variable {t t' : Task} {a : TaskAction} {r r' : Role}

theorem Active.congr (h : t'.Active) (hpending : t'.pending = t.pending) (hrun : t'.run = t.run) :
    t.Active := by
  rw [Active, ← hpending, ← hrun]
  exact h

theorem active_of_step (h : t.step a = some t') (hactive : t'.Active) :
    t.Active ∨ ∃ r, a = .enqueue r := by
  cases transition_of_step h with
  | enqueue => exact Or.inr ⟨_, rfl⟩
  | start hpending => exact Or.inl (Or.inl hpending)
  | flush r hrun => exact Or.inl (hactive.imp nofun fun hne => absurd hrun hne)
  | refuse => exact Or.inl (hactive.congr (pending_revokeFuture t) (run_revokeFuture t))
  | revoke r => exact Or.inl (hactive.congr (pending_revokeFuture t) (run_revokeFuture t))
  | cloneRevocable | register | unlisted | returnHandle | clone | drop | wake =>
    exact Or.inl (hactive.congr rfl rfl)
  | refused hrun | tryAccess hrun | makeWaker hrun | poll _ hrun | dropGuard hrun
  | complete hrun | suspend hrun | dropLocalWaker hrun | finish hrun =>
    exact Or.inl (Or.inr (by rw [hrun]; nofun))

theorem not_active_of_flush (h : t.step (.flush r) = some t') : ¬ t'.Active := by
  cases transition_of_step h with
  | flush _ hrun => exact fun hactive => hactive.elim nofun fun hne => hne hrun

/-- A registered task stays registered, and only `register` makes one of it. -/
theorem isRegistered_of_step (h : t.step a = some t') :
    t'.isRegistered = t.isRegistered ∨
      t.isRegistered = false ∧ t'.isRegistered = true ∧ a = .register false true := by
  cases transition_of_step h with
  | register hspawn => exact Or.inr ⟨by rw [isRegistered, hspawn], rfl, rfl⟩
  | cloneRevocable hspawn => exact Or.inl (by rw [isRegistered, isRegistered, hspawn])
  | refuse _ hspawn => exact Or.inl (by rw [isRegistered, isRegistered, hspawn])
  | unlisted hspawn => exact Or.inl (by rw [isRegistered, isRegistered, hspawn])
  | returnHandle hspawn => exact Or.inl (by rw [isRegistered, isRegistered, hspawn])
  | enqueue => exact Or.inl (by rw [isRegistered, isRegistered, spawn_enqueueHandle])
  | revoke => exact Or.inl (by rw [isRegistered, isRegistered, spawn_revokeFuture])
  | complete => exact Or.inl (by rw [isRegistered, isRegistered, spawn_revokeFuture])
  | _ => exact Or.inl rfl

theorem Wakeable.mono (h : t'.Wakeable) (hactive : t'.Active → t.Active)
    (hhandles : ∀ r ∈ t'.handles, r ∈ t.handles ∨ r ≠ .waker ∧ r ≠ .waking) : t.Wakeable := by
  rcases h with hact | hwaker | hwaking
  · exact Or.inl (hactive hact)
  · exact Or.inr (Or.inl ((hhandles _ hwaker).resolve_right fun hne => hne.1 rfl))
  · exact Or.inr (Or.inr ((hhandles _ hwaking).resolve_right fun hne => hne.2 rfl))

theorem Wakeable.of_clone (h : (t.addHandle r').Wakeable) (hmem : r ∈ t.handles)
    (hmay : t.mayClone r r' = true) : t.Wakeable := by
  unfold mayClone at hmay
  split at hmay
  · refine h.mono (fun hactive => hactive.congr rfl rfl) fun r hr => ?_
    rcases List.mem_cons.mp hr with rfl | hold
    · exact Or.inr ⟨nofun, nofun⟩
    · exact Or.inl hold
  · exact Or.inr (Or.inl hmem)
  · exact Or.inr (Or.inl hmem)
  · exact Or.inl (Or.inr (by rw [of_decide_eq_true hmay]; nofun))
  · exact Or.inl (Or.inr (by rw [of_decide_eq_true hmay]; nofun))
  · cases hmay

theorem wakeable_of_step (h : t.step a = some t') (hwake : t'.Wakeable) :
    t.Wakeable ∨ t.isRegistered = true := by
  have hactive := active_of_step h
  cases transition_of_step h with
  | enqueue hmem hrole =>
    rcases hrole with ⟨-, hspawn⟩ | rfl
    · exact Or.inr (by rw [isRegistered, hspawn])
    · exact Or.inl (Or.inr (Or.inr hmem))
  | clone hmem hmay => exact Or.inl (hwake.of_clone hmem hmay)
  | wake hmem => exact Or.inl (Or.inr (Or.inl hmem))
  | start hpending => exact Or.inl (Or.inl (Or.inl hpending))
  | refused hrun | tryAccess hrun | makeWaker hrun | poll _ hrun | dropGuard hrun
  | complete hrun | suspend hrun | dropLocalWaker hrun | finish hrun =>
    exact Or.inl (Or.inl (Or.inr (by rw [hrun]; nofun)))
  | returnHandle hspawn => exact Or.inr (by rw [isRegistered, hspawn])
  | cloneRevocable | register =>
    refine Or.inl (hwake.mono (fun hact => (hactive hact).resolve_right nofun) fun r hr => ?_)
    rcases List.mem_cons.mp hr with rfl | hold
    · exact Or.inr ⟨nofun, nofun⟩
    · exact Or.inl hold
  | drop =>
    exact Or.inl (hwake.mono (fun hact => (hactive hact).resolve_right nofun) fun r hr =>
      Or.inl (List.mem_of_mem_erase hr))
  | refuse | revoke =>
    exact Or.inl (hwake.mono (fun hact => (hactive hact).resolve_right nofun) fun r hr =>
      Or.inl (handles_revokeFuture t ▸ hr))
  | unlisted | flush =>
    exact Or.inl (hwake.mono (fun hact => (hactive hact).resolve_right nofun) fun r hr =>
      Or.inl hr)

/-- Only a task in the list is ever woken. -/
theorem isRegistered_of_wakeable (h : t.Wakeable → t.isRegistered = true)
    (hstep : t.step a = some t') (hwake : t'.Wakeable) : t'.isRegistered = true := by
  have hold : t.isRegistered = true := (wakeable_of_step hstep hwake).elim h id
  rcases isRegistered_of_step hstep with heq | ⟨-, hnow, -⟩
  · rw [heq, hold]
  · exact hnow

theorem not_wakeable_new : ¬ new.Wakeable := by
  rintro (hactive | hmem | hmem)
  · exact absurd hactive (by decide)
  · exact absurd hmem (by decide)
  · exact absurd hmem (by decide)

end Task

namespace WorkqueueExecutor

/-- Where `stop` will find a task: in the list, or in the part of it that it took and has not
flushed. -/
def Tracks (s : WorkqueueExecutor) (i : Nat) : Prop := i ∈ s.list ∨ i ∈ s.remaining

/-- No work item is enqueued that `stop` has flushed already or did not find in the list. -/
def enqueuesTracked (s : WorkqueueExecutor) : ExecutorAction → Bool
  | .task i (.enqueue _) => !s.stopped || decide (i ∈ s.remaining)
  | _ => true

variable {s s' : WorkqueueExecutor} {a : ExecutorAction} {i : Nat} {t t' : Task} {ta : TaskAction}

/-- What the executor keeps when an action takes the step `ta` on the task `i`. -/
structure Keeps (s e : WorkqueueExecutor) (i : Nat) (ta : TaskAction) : Prop where
  stopped : e.stopped = s.stopped
  stop : s.stop = .idle → e.stop = .idle
  list : e.list = s.list ∨ s.stopped = false ∧ e.list = s.list ++ [i]
  remaining : ∀ j ∈ s.remaining, j ∈ e.remaining ∨ j = i ∧ ta = .flush .entry
  register : ta = .register false true → i ∈ e.list

theorem keeps_advance (h : s.target a = some (i, ta)) : Keeps s (s.advance a) i ta := by
  rcases target_cases h with ⟨alloc, rfl, hadv⟩ | ⟨-, hlocal, hadv⟩ | ⟨rest, hstop, rfl, hadv⟩ |
    ⟨rest, hstop, rfl, hadv⟩ | ⟨rest, hstop, rfl, hadv⟩
  · rw [hadv]
    split
    next hcond =>
      exact ⟨rfl, id, Or.inr ⟨hcond.1, rfl⟩, fun j hj => Or.inl hj, fun _ => by simp⟩
    next hcond =>
      refine ⟨rfl, id, Or.inl rfl, fun j hj => Or.inl hj, fun heq => absurd ?_ hcond⟩
      injection heq with hstopped halloc
      exact ⟨hstopped, halloc⟩
  · rw [hadv]
    refine ⟨rfl, id, Or.inl rfl, fun j hj => Or.inl hj, ?_⟩
    rintro rfl
    cases hlocal
  · rw [hadv]
    refine ⟨rfl, fun hidle => ?_, Or.inl rfl, fun j hj => Or.inl ?_, nofun⟩
    · rw [hstop] at hidle
      cases hidle
    · rw [remaining, hstop] at hj
      exact hj
  · rw [hadv]
    refine ⟨rfl, fun hidle => ?_, Or.inl rfl, fun j hj => ?_, nofun⟩
    · rw [hstop] at hidle
      cases hidle
    · rw [remaining, hstop] at hj
      rcases List.mem_cons.mp hj with rfl | hrest
      · exact Or.inr ⟨rfl, rfl⟩
      · exact Or.inl hrest
  · rw [hadv]
    refine ⟨rfl, fun hidle => ?_, Or.inl rfl, fun j hj => Or.inl ?_, nofun⟩
    · rw [hstop] at hidle
      cases hidle
    · rw [remaining, hstop] at hj
      exact hj

theorem Keeps.mem_list {e : WorkqueueExecutor} (h : Keeps s e i ta) {j : Nat} (hj : j ∈ s.list) :
    j ∈ e.list := by
  rcases h.list with heq | ⟨-, heq⟩
  · rw [heq]
    exact hj
  · rw [heq]
    exact List.mem_append_left _ hj

structure Tracked (s : WorkqueueExecutor) : Prop where
  active : ∀ {i t}, s.tasks[i]? = some t → t.Active → s.Tracks i
  registered : s.stopped = false → ∀ {i t}, s.tasks[i]? = some t → t.isRegistered = true →
    i ∈ s.list
  wakeable : ∀ t ∈ s.tasks, t.Wakeable → t.isRegistered = true
  list : s.stopped = true → s.list = []
  stop : s.stopped = false → s.stop = .idle

theorem tracked_new : new.Tracked := ⟨nofun, nofun, nofun, nofun, fun _ => rfl⟩

theorem Tracked.stopped_of_stop (h : s.Tracked) (hstop : s.stop ≠ .idle) : s.stopped = true := by
  by_contra hrunning
  exact hstop (h.stop (Bool.eq_false_iff.mpr hrunning))

/-- Each step of the executor leaves a task that was there alone or is a step of it. -/
theorem task_step {j : Nat} (hj : j < s.tasks.length) (hstep : s.step a = some s')
    (ht' : s'.tasks[j]? = some t') :
    s.tasks[j]? = some t' ∨ ∃ t ta, s.tasks[j]? = some t ∧ t.step ta = some t' := by
  rcases step_cases hstep with rfl | ⟨-, rfl⟩ | ⟨-, rfl⟩ | ⟨-, rfl⟩ |
    ⟨i, ta, t, u, htarget, ht, hu, rfl⟩
  · exact Or.inl ht'
  · rw [List.getElem?_append_left hj] at ht'
    exact Or.inl ht'
  · exact Or.inl ht'
  · exact Or.inl ht'
  · rcases getElem?_set_cases ht' with ⟨rfl, rfl⟩ | ⟨-, hold⟩
    · exact Or.inr ⟨t, ta, ht, hu⟩
    · exact Or.inl hold

theorem length_le_of_step (hstep : s.step a = some s') : s.tasks.length ≤ s'.tasks.length := by
  rcases step_cases hstep with rfl | ⟨-, rfl⟩ | ⟨-, rfl⟩ | ⟨-, rfl⟩ |
    ⟨i, ta, t, u, htarget, ht, hu, rfl⟩
  · exact Nat.le_refl _
  · exact List.length_append ▸ Nat.le_add_right _ _
  · exact Nat.le_refl _
  · exact Nat.le_refl _
  · exact Nat.le_of_eq List.length_set.symm

theorem Tracked.wakeable_step (h : s.Tracked) (hstep : s.step a = some s') :
    ∀ t ∈ s'.tasks, t.Wakeable → t.isRegistered = true := by
  exact tasks_step (P := fun t => t.Wakeable → t.isRegistered = true)
    (fun hwake => absurd hwake Task.not_wakeable_new) h.wakeable
    (fun _ _ ht' hreg => Task.isRegistered_of_wakeable hreg ht') hstep

theorem Tracked.tracks_of_enqueue {r : Role} (h : s.Tracked) (ht : s.tasks[i]? = some t)
    (hguard : s.enqueuesTracked (.task i (.enqueue r)) = true)
    (hstep : t.step (.enqueue r) = some t') : s.Tracks i := by
  rw [enqueuesTracked, Bool.or_eq_true] at hguard
  rcases hguard with hrunning | hrest
  · have hreg : t.isRegistered = true := by
      cases Task.transition_of_step hstep with
      | enqueue hmem hrole =>
        rcases hrole with ⟨-, hspawn⟩ | rfl
        · rw [Task.isRegistered, hspawn]
        · exact h.wakeable t (List.mem_of_getElem? ht) (Or.inr (Or.inr hmem))
    exact Or.inl (h.registered (by simpa using hrunning) ht hreg)
  · exact Or.inr (of_decide_eq_true hrest)

theorem Tracked.tracks_advance (h : s.Tracked) (hguard : s.enqueuesTracked a = true)
    (htarget : s.target a = some (i, ta)) (ht : s.tasks[i]? = some t)
    (hstep : t.step ta = some t') (hactive : t'.Active) : (s.advance a).Tracks i := by
  have hkeeps := keeps_advance htarget
  have htracks : s.Tracks i := by
    rcases Task.active_of_step hstep hactive with hold | ⟨r, rfl⟩
    · exact h.active ht hold
    · rcases target_cases htarget with ⟨alloc, heq, -⟩ | ⟨rfl, -⟩ | ⟨rest, -, heq, -⟩ |
        ⟨rest, -, heq, -⟩ | ⟨rest, -, heq, -⟩
      · cases heq
      · exact h.tracks_of_enqueue ht hguard hstep
      · cases heq
      · cases heq
      · cases heq
  rcases htracks with hlist | hrest
  · exact Or.inl (hkeeps.mem_list hlist)
  · rcases hkeeps.remaining i hrest with hkept | ⟨-, rfl⟩
    · exact Or.inr hkept
    · exact absurd hactive (Task.not_active_of_flush hstep)

theorem Tracked.setTask (h : s.Tracked) (hguard : s.enqueuesTracked a = true)
    (htarget : s.target a = some (i, ta)) (ht : s.tasks[i]? = some t) (hstep : t.step ta = some t')
    (hwakeable : ∀ t ∈ s.tasks.set i t', t.Wakeable → t.isRegistered = true) :
    Tracked { s.advance a with tasks := s.tasks.set i t' } := by
  have hkeeps := keeps_advance htarget
  refine ⟨?_, ?_, hwakeable, ?_, ?_⟩
  · intro j u hu hactive
    rcases getElem?_set_cases hu with ⟨rfl, rfl⟩ | ⟨hne, hold⟩
    · exact h.tracks_advance hguard htarget ht hstep hactive
    · rcases h.active hold hactive with hlist | hrest
      · exact Or.inl (hkeeps.mem_list hlist)
      · exact Or.inr ((hkeeps.remaining j hrest).resolve_right fun hflush => hne hflush.1)
  · intro hrunning j u hu hreg
    rw [hkeeps.stopped] at hrunning
    rcases getElem?_set_cases hu with ⟨rfl, rfl⟩ | ⟨-, hold⟩
    · rcases Task.isRegistered_of_step hstep with heq | ⟨-, -, rfl⟩
      · exact hkeeps.mem_list (h.registered hrunning ht (heq ▸ hreg))
      · exact hkeeps.register rfl
    · exact hkeeps.mem_list (h.registered hrunning hold hreg)
  · intro hstopped
    rw [hkeeps.stopped] at hstopped
    rcases hkeeps.list with heq | ⟨hrunning, -⟩
    · rw [heq, h.list hstopped]
    · rw [hstopped] at hrunning
      cases hrunning
  · intro hrunning
    rw [hkeeps.stopped] at hrunning
    exact hkeeps.stop (h.stop hrunning)

theorem Tracked.step (h : s.Tracked) (hguard : s.enqueuesTracked a = true)
    (hstep : s.step a = some s') : s'.Tracked := by
  have hwakeable := h.wakeable_step hstep
  rcases step_cases hstep with rfl | ⟨-, rfl⟩ | ⟨hidle, rfl⟩ | ⟨hdone, rfl⟩ |
    ⟨i, ta, t, t', htarget, ht, ht', rfl⟩
  · exact h
  · refine ⟨?_, ?_, hwakeable, h.list, h.stop⟩
    · intro i t ht hactive
      rcases getElem?_concat_cases ht with hold | ⟨-, rfl⟩
      · exact h.active hold hactive
      · exact absurd hactive (by decide)
    · intro hrunning i t ht hreg
      rcases getElem?_concat_cases ht with hold | ⟨-, rfl⟩
      · exact h.registered hrunning hold hreg
      · cases hreg
  · refine ⟨?_, nofun, hwakeable, fun _ => rfl, nofun⟩
    intro i t ht hactive
    rcases h.active ht hactive with hlist | hrest
    · exact Or.inr hlist
    · rw [remaining, hidle] at hrest
      cases hrest
  · have hstopped := h.stopped_of_stop (by rw [hdone]; nofun)
    refine ⟨?_, h.registered, hwakeable, h.list, fun hrunning => ?_⟩
    · intro i t ht hactive
      rcases h.active ht hactive with hlist | hrest
      · exact Or.inl hlist
      · rw [remaining, hdone] at hrest
        cases hrest
    · rw [hstopped] at hrunning
      cases hrunning
  · exact h.setTask hguard htarget ht ht' hwakeable

/-- After `stop` there is nothing left to track, so no work item is active. -/
theorem Tracked.not_active_of_returned (h : s.Tracked) (hreturned : s.stop = .returned) :
    ∀ t ∈ s.tasks, ¬ t.Active := by
  intro t hmem hactive
  have hstopped := h.stopped_of_stop (by rw [hreturned]; nofun)
  obtain ⟨i, ht⟩ := List.getElem?_of_mem hmem
  rcases h.active ht hactive with hlist | hrest
  · rw [h.list hstopped] at hlist
    cases hlist
  · rw [remaining, hreturned] at hrest
    cases hrest

section Runs

variable {actions : List ExecutorAction}

theorem tracked_of_run
    (hguard : Guarded step (fun s a => s.enqueuesTracked a = true) new actions)
    (hrun : run step new actions = some s) : s.Tracked :=
  run_invariant (fun h ha hstep => h.step ha hstep) tracked_new hguard hrun

/-- In every run that enqueues nothing `stop` has already flushed or never found, no work item is
pending or running once `stop` has returned. -/
theorem not_active_after_stop
    (hguard : Guarded step (fun s a => s.enqueuesTracked a = true) new actions)
    (hrun : run step new actions = some s) (hreturned : s.stop = .returned) :
    ∀ t ∈ s.tasks, ¬ t.Active :=
  (tracked_of_run hguard hrun).not_active_of_returned hreturned

end Runs

def spawnOne : List ExecutorAction :=
  [.spawn, .task 0 .cloneRevocable, .register 0 true, .task 0 (.enqueue .taskArc),
    .task 0 .returnHandle]

def pollOne : List ExecutorAction :=
  [.task 0 .start, .task 0 .tryAccess, .task 0 .makeWaker, .task 0 (.clone .localWaker .waker),
    .task 0 (.poll false), .task 0 .dropGuard, .task 0 .afterPoll, .task 0 .dropLocalWaker,
    .task 0 .finish]

def wakeOne : List ExecutorAction := [.task 0 .wake, .task 0 (.enqueue .waking)]

def stopOne : List ExecutorAction := [.stopTake, .stopRevoke, .stopFlush, .stopDrop, .stopReturn]

theorem not_active_after_wake_and_stop :
    ∃ s, Guarded step (fun s a => s.enqueuesTracked a = true) new
        (spawnOne ++ pollOne ++ wakeOne ++ stopOne) ∧
      run step new (spawnOne ++ pollOne ++ wakeOne ++ stopOne) = some s ∧
      s.stop = .returned ∧ s.tasks.length = 1 ∧ ∀ t ∈ s.tasks, ¬ t.Active := by
  have hguard : Guarded step (fun s a => s.enqueuesTracked a = true) new
      (spawnOne ++ pollOne ++ wakeOne ++ stopOne) := by decide
  exact ⟨_, hguard, rfl, rfl, rfl, not_active_after_stop hguard rfl rfl⟩

/-- A waker that was kept outside enqueues the task after `stop` has returned. -/
theorem active_after_stop_and_wake :
    ∃ s, run step new (spawnOne ++ pollOne ++ stopOne ++ wakeOne) = some s ∧
      s.stop = .returned ∧ ∃ t ∈ s.tasks, t.Active :=
  ⟨_, rfl, rfl, by decide⟩

end WorkqueueExecutor

end Rko
