import Rko.TaskReferences
import Rko.ExecutorShutdown

namespace Rko

open GuardedRun

namespace WorkqueueExecutor

def conserves (s : WorkqueueExecutor) (a : ExecutorAction) : Bool :=
  (s.target a).all fun target => (s.tasks[target.1]?).all fun t => t.conserves target.2

variable {s s' : WorkqueueExecutor} {a : ExecutorAction} {actions : List ExecutorAction}

theorem task_conserves {i : Nat} {ta : TaskAction} {t : Task} (h : s.conserves a = true)
    (htarget : s.target a = some (i, ta)) (ht : s.tasks[i]? = some t) : t.conserves ta = true := by
  rw [conserves, htarget, Option.all_some, ht, Option.all_some] at h
  exact h

theorem counted_step (h : ∀ t ∈ s.tasks, t.Counted) (ha : s.conserves a = true)
    (hstep : s.step a = some s') : ∀ t ∈ s'.tasks, t.Counted :=
  tasks_step Task.counted_new h
    (fun htarget ht ht' hcounted => hcounted.step (task_conserves ha htarget ht) ht') hstep

theorem counted_of_run (hguard : Guarded step (fun s a => s.conserves a = true) new actions)
    (hrun : run step new actions = some s) : ∀ t ∈ s.tasks, t.Counted :=
  run_invariant (I := fun s => ∀ t ∈ s.tasks, t.Counted)
    (fun h ha hstep => counted_step h ha hstep) nofun hguard hrun

/-- In every run that flushes no pending item and overflows no count, the count of each task is
the number of its handles, plus one for a pending item, and the task is freed once, when that is
zero. If nothing is enqueued behind the back of `stop` either, a task without handles is freed
once `stop` has returned. -/
theorem refs_conserved_of_run
    (hguard : Guarded step (fun s a => s.conserves a = true) new actions)
    (hrun : run step new actions = some s) :
    (∀ t ∈ s.tasks, t.refs.toInt = (t.handles.length + t.pending.toNat : Nat) ∧
      t.freed = if t.handles = [] ∧ t.pending = false then 1 else 0) ∧
    (Guarded step (fun s a => s.enqueuesTracked a = true) new actions → s.stop = .returned →
      ∀ t ∈ s.tasks, t.handles = [] → t.refs = 0 ∧ t.freed = 1) := by
  have hcounted := counted_of_run hguard hrun
  refine ⟨fun t ht => ⟨(hcounted t ht).refs_toInt, (hcounted t ht).freed_eq⟩, ?_⟩
  intro htracked hreturned t ht hnone
  have hidle := (tracked_of_run htracked hrun).not_active_of_returned hreturned t ht
  have hpending : t.pending = false := by
    by_contra hset
    exact hidle (Or.inl (Bool.eq_true_of_not_eq_false hset))
  have howners : t.owners = 0 := by rw [Task.owners, hnone, hpending]; rfl
  exact ⟨by rw [(hcounted t ht).refs, howners]; rfl, by rw [(hcounted t ht).freed, if_pos howners]⟩

/-- A spawned task is polled once and the executor stopped, then all its handles are dropped. -/
def polledThenStopped : List ExecutorAction :=
  spawnOne ++ pollOne ++ stopOne ++ [.task 0 (.drop .waker), .task 0 (.drop .caller)]

theorem refs_conserved_after_poll_and_stop :
    ∃ s t, Guarded step (fun s a => s.conserves a = true) new polledThenStopped ∧
      Guarded step (fun s a => s.enqueuesTracked a = true) new polledThenStopped ∧
      run step new polledThenStopped = some s ∧ s.stop = .returned ∧ s.tasks = [t] ∧
      t.handles = [] ∧ t.refs = 0 ∧ t.freed = 1 := by
  have hguard : Guarded step (fun s a => s.conserves a = true) new polledThenStopped := by decide
  have htracked : Guarded step (fun s a => s.enqueuesTracked a = true) new polledThenStopped := by
    decide
  exact ⟨_, _, hguard, htracked, rfl, rfl, rfl, rfl,
    (refs_conserved_of_run hguard rfl).2 htracked rfl _ List.mem_cons_self rfl⟩

/-- Stopped before its first poll, a task keeps the reference of its work item for good. -/
theorem refs_leaked_by_flush :
    ∃ s, run step new (spawnOne ++ stopOne ++ [.task 0 (.drop .caller)]) = some s ∧
      s.stop = .returned ∧ ∃ t ∈ s.tasks, t.handles = [] ∧ t.pending = false ∧
        t.refs = 1 ∧ t.freed = 0 :=
  ⟨_, rfl, rfl, by decide⟩

end WorkqueueExecutor

end Rko
